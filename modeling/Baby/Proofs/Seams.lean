import Baby.Proofs.Joining
import Baby.Proofs.Mimicry
import Baby.Proofs.Sessions

/-! Sources run one after the other, and joined. A program hands the store of its statements on, and what it
does around them does not depend on the statements before. -/
namespace Baby

/-! Evaluation -/

namespace Eval

theorem sequenceAppend (ev : Evaluator Eval) (id : ScopeId) (last : Option Value) (ts us : List Tree) :
    sequence ev id last (ts ++ us) = sequence ev id last ts >>= fun r => sequence ev id r us := by
  induction ts generalizing last with
  | nil => simp [sequence]
  | cons t ts ih => simp [sequence, ih]

theorem sequenceLast (ev : Evaluator Eval) (id : ScopeId) (last last' : Option Value) {ts : List Tree}
    (more : ts ≠ []) : sequence ev id last ts = sequence ev id last' ts := by
  cases ts with
  | nil => exact absurd rfl more
  | cons t ts => rfl

def closing (id : ScopeId) (x : Eval (Option Value)) : Eval (Option Value) := do
  match ← takeReturn id x with
  | some v => some <$> settle v
  | none => return none

theorem withinProgram (rounds depth : Nat) (id : ScopeId) (body : List Tree) (line : Nat) :
    (within rounds (depth + 1) id (.program body line) : Eval (Option Value)) =
      closing id (sequence (within rounds depth) id none body) := rfl

variable {id : ScopeId} {x y : Eval (Option Value)} {st st₁ : Store}

theorem runTaken (id : ScopeId) (x : Eval (Option Value)) (st : Store) :
    (takeReturn id x).run.run st = (handed (x.run.run st).1, (x.run.run st).2) := by
  show (tryCatch x _).run.run st = _
  rw [Mimics.runCatch]
  rcases x.run.run st with ⟨stop | r, st₁⟩
  · cases stop <;> rfl
  · rfl

theorem closingSame {st' : Store} (same : x.run.run st = y.run.run st') :
    (closing id x).run.run st = (closing id y).run.run st' := by
  unfold closing
  rw [Mimics.runBind, Mimics.runBind, runTaken, runTaken, same]

theorem settleRun (v : Value) (st : Store) :
    (∃ w, (settle v : Eval Value).run.run st = (.ok w, st)) ∨
      ∃ a stop, (settle v : Eval Value).run.run st = (.error stop, st) ∧
        Ending.ofStop stop = .finished (some (.ref a)) := by
  have looked : (Machine.look : Eval Store).run.run st = (.ok st, st) := rfl
  unfold settle
  rw [Mimics.runBind, looked]
  dsimp only
  split
  · exact .inr ⟨_, _, rfl, rfl⟩
  · exact .inr ⟨_, _, rfl, rfl⟩
  · exact .inl ⟨_, rfl⟩

theorem closingOk {r : Option Value} (ended : x.run.run st = (.ok r, st₁)) :
    ∃ r', (closing id x).finish st = (.finished r', st₁) := by
  unfold finish closing
  rw [Mimics.runBind, runTaken, ended]
  cases r with
  | none => exact ⟨none, rfl⟩
  | some v =>
    simp only [handed, map_eq_pure_bind]
    rw [Mimics.runBind]
    rcases settleRun v st₁ with ⟨w, run⟩ | ⟨a, stop, run, last⟩
    · rw [run]
      exact ⟨some w, rfl⟩
    · rw [run]
      exact ⟨some (.ref a), congrArg (·, st₁) last⟩

theorem closingStopped {stop : Stop} (ended : x.run.run st = (.error stop, st₁))
    (other : ∀ a v, stop ≠ .returned a v) : (closing id x).finish st = (.ofStop stop, st₁) := by
  unfold finish closing
  rw [Mimics.runBind, runTaken, ended]
  cases stop with
  | returned a v => exact absurd rfl (other a v)
  | _ => rfl

variable {rounds depth : Nat} {body others : List Tree}

theorem programJoin {r : Option Value} (more : others ≠ [])
    (ended : (sequence (within rounds depth) id none body : Eval _).run.run st = (.ok r, st₁))
    (line line' : Nat) :
    (within rounds (depth + 1) id (.program (body ++ others) line) : Eval _).finish st =
      (within rounds (depth + 1) id (.program others line') : Eval _).finish st₁ := by
  have whole : (sequence (within rounds depth) id none (body ++ others) : Eval _).run.run st =
      (sequence (within rounds depth) id none others : Eval _).run.run st₁ := by
    rw [sequenceAppend, Mimics.runBind, ended]
    exact congrArg (fun x : Eval _ => x.run.run st₁) (sequenceLast _ id r none more)
  unfold finish
  rw [withinProgram, withinProgram, closingSame whole]

theorem programJoinStopped {stop : Stop} (others : List Tree)
    (ended : (sequence (within rounds depth) id none body : Eval _).run.run st = (.error stop, st₁))
    (other : ∀ a v, stop ≠ .returned a v) (line : Nat) :
    (within rounds (depth + 1) id (.program (body ++ others) line) : Eval _).finish st =
      (.ofStop stop, st₁) := by
  rw [withinProgram]
  refine closingStopped ?_ other
  rw [sequenceAppend, Mimics.runBind, ended]

end Eval

theorem bindEvents {α β : Type} (x : Traced α) (f : α → Traced β) (st : Store) {e : Event}
    (member : e ∈ (x st).events) : e ∈ ((x >>= f) st).events := by
  show e ∈ (Traced.bind x f st).events
  unfold Traced.bind
  rcases outcome : x st with ⟨l, stop | a, st₁⟩
  · rw [outcome] at member
    exact member
  · rw [outcome] at member
    exact List.mem_append_left _ member

theorem visitLeft (id : ScopeId) (t : Tree) (x : Traced (Option Value)) (st : Store) :
    .left id t (Machine.visit id t x st).result (Machine.visit id t x st).store ∈
      (Machine.visit id t x st).events := by
  show _ ∈ _ ++ [_]
  exact List.mem_append_right _ (List.mem_singleton.2 rfl)

theorem sequenceErased (rounds depth : Nat) (id : ScopeId) (last : Option Value) (body : List Tree)
    (st : Store) :
    (Eval.sequence (Eval.within rounds depth) id last body : Eval _).run.run st =
      (((Eval.sequence (Eval.within rounds depth) id last body : Traced _) st).result,
        ((Eval.sequence (Eval.within rounds depth) id last body : Traced _) st).store) := by
  rw [← Traced.eraseSequence]
  rfl

theorem sequenceLeft {rounds depth : Nat} {id : ScopeId} {last : Option Value} {body : List Tree} {st : Store}
    {stop : Stop} (other : stop ≠ .depth)
    (h : ((Eval.sequence (Eval.within rounds depth) id last body : Traced _) st).result = .error stop) :
    ∃ u st', Event.left id u (.error stop) st' ∈
      ((Eval.sequence (Eval.within rounds depth) id last body : Traced _) st).events := by
  induction body generalizing last st with
  | nil => cases h
  | cons t ts ih =>
    change (Traced.bind _ _ st).result = _ at h
    show ∃ u st', _ ∈ (Traced.bind _ _ st).events
    unfold Traced.bind at h ⊢
    rcases outcome : (Eval.within rounds depth id t : Traced _) st with ⟨l, stop' | r, st₁⟩
    · rw [outcome] at h
      cases h
      cases depth with
      | zero =>
        cases outcome
        exact absurd rfl other
      | succ depth =>
        have left : .left id t ((Eval.within rounds (depth + 1) id t : Traced _) st).result
            ((Eval.within rounds (depth + 1) id t : Traced _) st).store ∈
            ((Eval.within rounds (depth + 1) id t : Traced _) st).events := visitLeft id t _ st
        rw [outcome] at left
        exact ⟨t, st₁, left⟩
    · rw [outcome] at h
      obtain ⟨u, st', left⟩ := ih h
      exact ⟨u, st', List.mem_append_right _ left⟩

namespace Session

def Returns (s : Session) (t : Tree) : Prop :=
  ∃ u a v st, .left s.root u (.error (.returned a v)) st ∈ (s.trace t).events

/- One source after the other; after a run that does not end there is nothing to go on with. -/
def runBoth (s : Session) (first second : String) : Ending × Session :=
  match s.run first with
  | (.finished _, s') => s'.run second
  | cut => cut

structure Relined (s s' : Session) : Prop where
  store : s.store.through Tree.unlined = s'.store.through Tree.unlined
  printed : s.store.printed = s'.store.printed
  root : s.root = s'.root
  limits : s.limits = s'.limits

end Session

section
variable {st st₁ : Store} {root : ScopeId} {rounds depth : Nat} {body : List Tree}

theorem sequenceReturns {a : Addr} {v : Value} (line : Nat)
    (h : (Eval.sequence (Eval.within rounds depth) root none body : Eval _).run.run st =
      (.error (.returned a v), st₁)) :
    Session.Returns ⟨st, root, ⟨depth + 1, rounds⟩⟩ (.program body line) := by
  rw [sequenceErased] at h
  obtain ⟨u, st', left⟩ := sequenceLeft (by simp) (Prod.mk.inj h).1
  refine ⟨u, a, v, st', ?_⟩
  show _ ∈ _ :: ((Eval.takeReturn root _ >>= _ : Traced _) st).events ++ _
  refine List.mem_append_left _ (List.mem_cons_of_mem _ (bindEvents _ _ st ?_))
  rw [takeReturnOutcome]
  exact List.mem_append_left _ (List.mem_cons_of_mem _ left)

theorem sequenceFails {P : Tree → Prop} (closed : Hereditary P) {w : World} (live : w.Live P (some root))
    (known : ∀ t ∈ body, P t) {a : Addr} {f : Fault}
    (h : (Eval.sequence (Eval.within rounds depth) root none body : Eval _).run.run w.store =
      (.error (.fault a f), st₁)) : st₁.object? (.ref a) = some (.error f) := by
  rw [sequenceErased] at h
  obtain ⟨result, rfl⟩ := Prod.mk.inj h
  have follows : Follows P (some root) .missing w _ _ :=
    followsSequence closed rounds depth live known
  obtain ⟨w', same, trace, _⟩ := follows
  rw [result] at trace
  rw [← same]
  exact (trace.stopped live.sound).1 a f rfl

end

theorem runParsed {source : String} {tree : Tree} (parsed : parse source = .ok ⟨tree, []⟩) (s : Session) :
    s.run source = s.execute tree := by
  unfold Session.run
  rw [parsed]

theorem executeFinish {st st₁ : Store} {root : ScopeId} {depth rounds : Nat} {t : Tree} {ending : Ending}
    (h : (Eval.within rounds depth root t : Eval _).finish st = (ending, st₁)) :
    Session.execute ⟨st, root, depth, rounds⟩ t = (ending, ⟨st₁, root, depth, rounds⟩) := by
  unfold Session.execute Limits.eval
  rw [h]

section
variable {st st₁ : Store} {root : ScopeId} {rounds depth : Nat} {body others : List Tree}

theorem executeStopped {stop : Stop}
    (ended : (Eval.sequence (Eval.within rounds depth) root none body : Eval _).run.run st = (.error stop, st₁))
    (other : ∀ a v, stop ≠ .returned a v) (line : Nat) :
    Session.execute ⟨st, root, depth + 1, rounds⟩ (.program body line) =
        (.ofStop stop, ⟨st₁, root, depth + 1, rounds⟩) ∧
      ∀ others line', Session.execute ⟨st, root, depth + 1, rounds⟩ (.program (body ++ others) line') =
        (.ofStop stop, ⟨st₁, root, depth + 1, rounds⟩) := by
  have alone : (Eval.within rounds (depth + 1) root (.program body line) : Eval _).finish st =
    (.ofStop stop, st₁) := Eval.closingStopped ended other
  exact ⟨executeFinish alone, fun others line' =>
    executeFinish (Eval.programJoinStopped others ended other line')⟩

theorem executeFinished {r : Option Value} {line : Nat}
    (ended : (Eval.sequence (Eval.within rounds depth) root none body : Eval _).run.run st = (.ok r, st₁)) :
    ∃ r', Session.execute ⟨st, root, depth + 1, rounds⟩ (.program body line) =
      (.finished r', ⟨st₁, root, depth + 1, rounds⟩) := by
  obtain ⟨r', alone⟩ : ∃ r', (Eval.within rounds (depth + 1) root (.program body line) : Eval _).finish st =
    (.finished r', st₁) := Eval.closingOk ended
  exact ⟨r', executeFinish alone⟩

theorem executeJoined {r : Option Value} {u : Tree} {line : Nat} (more : others ≠ [])
    (ended : (Eval.sequence (Eval.within rounds depth) root none body : Eval _).run.run st = (.ok r, st₁))
    (alike : (Tree.program others line).unlined = u.unlined) :
    (Session.execute ⟨st, root, depth + 1, rounds⟩ (.program (body ++ others) line)).1 =
        (Session.execute ⟨st₁, root, depth + 1, rounds⟩ u).1 ∧
      (Session.execute ⟨st, root, depth + 1, rounds⟩ (.program (body ++ others) line)).2.Relined
        (Session.execute ⟨st₁, root, depth + 1, rounds⟩ u).2 := by
  have mimics := Mimics.within unlinedForgets rounds (depth + 1) root _ _ alike
  obtain ⟨endings, stores⟩ := mimics.finish (rfl : st₁.through Tree.unlined = st₁.through Tree.unlined)
  obtain ⟨lines, lines', printed, printed', matched⟩ := stores.output
  rw [executeFinish (Eval.programJoin more ended line line)]
  rw [Array.map_id, Array.map_id] at matched
  exact ⟨endings, stores.things, printed.trans (matched ▸ printed'.symm), rfl, rfl⟩

end

/-- Sources run one after the other do what they do when they are joined by a line break: the first ends in
a semicolon, the second has a statement, and the first ends neither in an error nor by a return. -/
theorem lineByLineAgrees {s : Session} (reached : s.Reachable fun _ => True) {first second : String}
    {t u : Tree} (left : parse first = .ok ⟨t, []⟩) (right : parse second = .ok ⟨u, []⟩)
    (sealed : ((tokenize first).dropLast.getLast?.map Token.kind) = some (.sign .semicolon))
    (more : u.parts ≠ [])
    (noError : ∀ v f, (s.run first).1 = .finished (some v) → (s.run first).2.store.object? v ≠ some (.error f))
    (noReturn : ¬ s.Returns t) :
    (s.run (first ++ "\n" ++ second)).1 = (s.runBoth first second).1 ∧
      (s.run (first ++ "\n" ++ second)).2.Relined (s.runBoth first second).2 := by
  obtain ⟨body, line, rfl, inner⟩ := parsedProgram left
  obtain ⟨body', line', rfl, _⟩ := parsedProgram right
  obtain ⟨w, shows⟩ := Session.reachableShows everyTree reached
  obtain ⟨others, line₁, joined, same⟩ := parseJoin left right fun tok member => by
    simpa [Option.mem_def.1 member] using sealed
  have alike : (Tree.program others line₁).unlined = (Tree.program body' line').unlined := by
    simpa [Tree.AlikeEach, eq_comm] using same
  have some : others ≠ [] := by
    rintro rfl
    cases body' with
    | nil => exact more rfl
    | cons => cases same
  unfold Session.runBoth
  rw [runParsed left] at noError ⊢
  rw [runParsed joined]
  obtain ⟨st, root, depth, rounds⟩ := s
  obtain ⟨rfl, live⟩ := shows
  cases depth with
  | zero => exact ⟨rfl, rfl, rfl, rfl, rfl⟩
  | succ depth =>
    rcases ended : (Eval.sequence (Eval.within rounds depth) root none body : Eval _).run.run w.store with
      ⟨stop | r, st₁⟩
    · have other (a : Addr) (v : Value) : stop ≠ .returned a v := by
        rintro rfl
        exact noReturn (sequenceReturns line ended)
      obtain ⟨alone, before⟩ := executeStopped ended other line
      rw [alone] at noError ⊢
      rw [before]
      cases stop with
      | fault a f =>
        have closed : Hereditary fun t => t.Inner ∧ True := fun t both u member =>
          ⟨everyHereditary _ t both.1 u member, trivial⟩
        have there := sequenceFails closed live (fun t member => ⟨inner t member, trivial⟩) ended
        exact absurd there (noError (.ref a) f rfl)
      | returned a v => exact absurd rfl (other a v)
      | depth | rounds => exact ⟨rfl, rfl, rfl, rfl, rfl⟩
    · obtain ⟨r', alone⟩ := executeFinished ended
      rw [alone]
      dsimp only
      rw [runParsed right]
      exact executeJoined some ended alike

def Event.isReturn : Event → Bool
  | .left _ _ (.error (.returned ..)) _ => true
  | _ => false

theorem lineByLineAgreesAdder :
    (Session.new.run ("let x = 1;" ++ "\n" ++ "let f = fun(y) \x7b y + x \x7d;\nf(x)")).1 =
      (Session.new.runBoth "let x = 1;" "let f = fun(y) \x7b y + x \x7d;\nf(x)").1 ∧
    (Session.new.run ("let x = 1;" ++ "\n" ++ "let f = fun(y) \x7b y + x \x7d;\nf(x)")).2.Relined
      (Session.new.runBoth "let x = 1;" "let f = fun(y) \x7b y + x \x7d;\nf(x)").2 := by
  have reached : Session.new.Reachable fun _ => True := ⟨.standard, .refl⟩
  have ended : (Session.new.run "let x = 1;").1 = .finished none := rfl
  have never : (Session.new.trace (.program [.define "x" .assign (.number 1 1) 1] 1)).events.all
    (fun e => !e.isReturn) = true := rfl
  refine lineByLineAgrees reached (t := .program [.define "x" .assign (.number 1 1) 1] 1) rfl
    (u := .program [.define "f" .assign (.function ["y"] (.block [.statement (.binary .add (.ident "y" 1)
      (.ident "x" 1) 1) 1] 1) 1) 1, .statement (.call (.ident "f" 2) [.ident "x" 2] 2) 2] 1) rfl rfl
    (by simp [Tree.parts]) ?_ ?_
  · rw [ended]
    simp
  · intro returns
    obtain ⟨u, a, v, st, member⟩ := returns
    have left := List.all_eq_true.1 never _ member
    simp [Event.isReturn] at left

end Baby
