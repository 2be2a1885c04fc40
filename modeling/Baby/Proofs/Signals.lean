import Baby.Proofs.Sessions

/-! Errors and returns go straight out: of every tree around them, and an error of every activation. -/
namespace Baby

/-! Results -/

def Store.Tells (st : Store) : Except Stop (Option Value) → Prop
  | .ok (some v) => st.Data v
  | .error (.fault a f) => st.objects[a]? = some (.error f)
  | .error (.returned a v) => st.objects[a]? = some (.returned v) ∧ st.Data v
  | .ok none | .error .depth | .error .rounds => True

def Event.result? : Event → Option (Except Stop (Option Value))
  | .left _ _ r _ | .answered _ r _ => some r
  | _ => none

theorem stopOfSome {α : Type} {r : Except Stop α} {stop : Stop} (h : stopOf r = some stop) :
    r = .error stop := by
  cases r with
  | ok => cases h
  | error => exact congrArg Except.error (Option.some.inj h)

namespace Trace
variable {P : Tree → Prop} {id : Option ScopeId} {t : Tree} {w w' : World} {l : List Event}
  {stop : Option Stop} {r : Except Stop (Option Value)}

theorem resultTells (h : Trace P id t w l w' (stopOf r)) (sound : w.Sound P)
    (given : ∀ v, r = .ok (some v) → w'.Ordinary v) : w'.store.Tells r := by
  obtain ⟨faults, returns⟩ := h.stopped sound
  rcases r with (⟨a, f⟩ | ⟨a, v⟩ | _ | _) | _ | v
  · exact faults a f rfl
  · exact ⟨returns a v rfl, (h.returned sound rfl).data⟩
  · trivial
  · trivial
  · trivial
  · exact (given v rfl).data

theorem handedTells (h : Trace P id t w l w' (stopOf r)) (sound : w.Sound P)
    (given : ∀ v, handed r = .ok (some v) → w'.Ordinary v) : w'.store.Tells (handed r) := by
  obtain ⟨faults, _⟩ := h.stopped sound
  rcases r with (⟨a, f⟩ | ⟨a, v⟩ | _ | _) | _ | v
  · exact faults a f rfl
  · exact (given v rfl).data
  · trivial
  · trivial
  · trivial
  · exact (given v rfl).data

theorem tells (h : Trace P id t w l w' stop) (sound : w.Sound P) {e : Event} (member : e ∈ l)
    {r : Except Stop (Option Value)} (result : e.result? = some r) : e.store.Tells r := by
  induction h with
  | none | cut => cases member
  | act | fail | leave =>
    rw [List.mem_singleton] at member
    subst member
    cases result
  | seq first _ ih ih' =>
    rcases List.mem_append.1 member with member | member
    · exact ih sound member
    · exact ih' (first.sound sound) member
  | node _ inner given ih =>
    rcases memAround member with rfl | inside | rfl
    · cases result
    · exact ih sound inside
    · cases result
      exact inner.resultTells sound given
  | call fine start inner given ih =>
    subst start
    have sound₁ := World.actSound sound fine
    rcases memAround member with rfl | inside | rfl
    · cases result
    · rcases List.mem_cons.1 inside with rfl | inside
      · cases result
      · exact ih sound₁ inside
    · cases result
      exact inner.handedTells sound₁ given
  | program _ inner given ih =>
    rcases memAround member with rfl | inside | rfl
    · cases result
    · exact ih sound inside
    · cases result
      exact inner.handedTells sound given

theorem neverReturned (h : Trace P .none t w l w' stop) (a : Addr) (v : Value) :
    stop ≠ some (.returned a v) := by
  generalize outside : (.none : Option ScopeId) = id at h
  induction h with
  | none | act | fail => simp
  | cut limit =>
    rintro ⟨⟩
    cases limit
  | seq _ _ _ ih => exact ih outside
  | leave | node => cases outside
  | call | program => exact handedReturned

end Trace

/-! Errors -/

def Event.Raises (a : Addr) (f : Fault) : Event → Prop
  | .left _ _ r _ | .answered _ r _ => r = .error (.fault a f)
  | .did (.alloc (.error f')) st => f' = f ∧ st.objects.size = a + 1
  | _ => False

def Event.Hands (stop : Stop) (st : Store) : Event → Prop
  | .left _ _ r st' | .answered _ r st' => r = .error stop ∧ st' = st
  | _ => False

theorem handsConcat {stop : Stop} {st : Store} {rest : List Event} {last : Event}
    (all : ∀ e ∈ rest, e.Hands stop st) (one : last.Hands stop st) :
    ∀ e ∈ rest ++ [last], e.Hands stop st := by
  intro e member
  rcases List.mem_append.1 member with member | member
  · exact all e member
  · rw [List.mem_singleton] at member
    exact member ▸ one

theorem Trace.crosses {P : Tree → Prop} {id : Option ScopeId} {t : Tree} {w w' : World}
    {l front back : List Event} {stop : Option Stop} {e : Event} {a : Addr} {f : Fault}
    (h : Trace P id t w l w' stop) (place : l = front ++ e :: back) (raises : e.Raises a f) :
    stop = some (.fault a f) ∧ w'.store = e.store ∧ ∀ e' ∈ back, e'.Hands (.fault a f) e.store := by
  induction h generalizing front back with
  | none | cut => simp at place
  | seq _ _ ih ih' =>
    rcases splitAppend place with ⟨rest, same, _⟩ | ⟨start, _, same⟩
    · obtain ⟨stops, _⟩ := ih same
      cases stops
    · exact ih' same
  | @act _ _ _ act _ plain =>
    rcases splitCons place with ⟨_, rfl, _⟩ | ⟨start, _, none⟩
    · rcases act with o | _ | _ | _ | _ | _
      · cases o with
        | error => cases plain
        | _ => exact raises.elim
      all_goals exact raises.elim
    · simp at none
  | @fail _ _ w f' =>
    rcases splitCons place with ⟨_, rfl, rfl⟩ | ⟨start, _, none⟩
    · obtain ⟨rfl, size⟩ := raises
      have here : w.store.objects.size = a := by simpa [Act.run] using size
      exact ⟨by rw [here], rfl, by simp⟩
    · simp at none
  | leave =>
    rcases splitCons place with ⟨_, rfl, _⟩ | ⟨start, _, none⟩
    · exact raises.elim
    · simp at none
  | node _ _ _ ih =>
    rcases splitAround place with rfl | ⟨start, rest, inside, _, rfl⟩ | ⟨rfl, rfl⟩
    · exact raises.elim
    · obtain ⟨stops, store, all⟩ := ih inside
      exact ⟨stops, store, handsConcat all ⟨stopOfSome stops, store⟩⟩
    · exact ⟨congrArg stopOf raises, rfl, by simp⟩
  | call _ _ _ _ ih =>
    rcases splitAround place with rfl | ⟨start, rest, inside, _, rfl⟩ | ⟨rfl, rfl⟩
    · exact raises.elim
    · rcases splitCons inside with ⟨_, rfl, _⟩ | ⟨start', _, inside'⟩
      · exact raises.elim
      · obtain ⟨stops, store, all⟩ := ih inside'
        have through := congrArg handed (stopOfSome stops)
        exact ⟨congrArg stopOf through, store, handsConcat all ⟨through, store⟩⟩
    · exact ⟨congrArg stopOf raises, rfl, by simp⟩
  | program _ _ _ ih =>
    rcases splitAround place with rfl | ⟨start, rest, inside, _, rfl⟩ | ⟨rfl, rfl⟩
    · exact raises.elim
    · obtain ⟨stops, store, all⟩ := ih inside
      have through := congrArg handed (stopOfSome stops)
      exact ⟨congrArg stopOf through, store, handsConcat all ⟨through, store⟩⟩
    · exact ⟨congrArg stopOf raises, rfl, by simp⟩

/-! Activations -/

/- What follows a signal in the activation of the scope `j`: the trees around it end with it and change
nothing, the activation answers, and no tree is evaluated in that scope any more. -/
def Unwinds (j : ScopeId) (stop : Stop) (st : Store) (back : List Event) : Prop :=
  ∃ exits rest, back = exits ++ .answered j (handed (.error stop)) st :: rest ∧
    (∀ e ∈ exits, ∃ t, e = .left j t (.error stop) st) ∧ ∀ t st', .entered j t st' ∉ rest

theorem Unwinds.append {j : ScopeId} {stop : Stop} {st : Store} {back l : List Event}
    (h : Unwinds j stop st back) (other : ∀ t st', .entered j t st' ∉ l) :
    Unwinds j stop st (back ++ l) := by
  obtain ⟨exits, rest, rfl, out, gone⟩ := h
  refine ⟨exits, rest ++ l, by simp, out, fun t st' member => ?_⟩
  exact (List.mem_append.1 member).elim (gone t st') (other t st')

namespace Trace
variable {P : Tree → Prop} {id : Option ScopeId} {t : Tree} {w w' : World}
  {l front back : List Event} {stop : Option Stop} {j : ScopeId} {u : Tree} {s : Stop} {st : Store}

theorem unwinds (bare : ∀ body line, ¬ P (.program body line)) (h : Trace P id t w l w' stop)
    (live : w.Live P id) (place : l = front ++ .left j u (.error s) st :: back) :
    (id = some j ∧ stop = some s ∧ w'.store = st ∧ ∀ e ∈ back, ∃ u', e = .left j u' (.error s) st) ∨
      (id ≠ some j ∧ Unwinds j s st back) := by
  induction h generalizing front back with
  | none | cut => simp at place
  | act | fail | leave =>
    rcases splitCons place with ⟨_, same, _⟩ | ⟨start, _, none⟩
    · cases same
    · simp at none
  | @seq _ _ _ w₁ _ l l' _ first second ih ih' =>
    have later := first.later live.sound
    have live₁ := live.later later (first.sound live.sound)
    rcases splitAppend place with ⟨rest, same, rfl⟩ | ⟨start, _, same⟩
    · rcases ih live same with ⟨_, stops, _⟩ | ⟨other, inside⟩
      · cases stops
      · refine .inr ⟨other, inside.append fun t st' member => ?_⟩
        -- the scope was opened in the first part, and the second is in others
        have opened : .left j u (.error s) st ∈ l := by simp [same]
        rcases first.scopes live.sound opened rfl with here | ⟨_, high⟩
        · exact other here
        · rcases second.scopes live₁.sound member rfl with here | ⟨low, _⟩
          · exact other here
          · exact Nat.not_lt_of_le low high
    · exact ih' live₁ same
  | node _ _ _ ih =>
    rcases splitAround place with same | ⟨start, rest, inside, _, rfl⟩ | ⟨same, rfl⟩
    · cases same
    · rcases ih live inside with ⟨here, stops, store, out⟩ | ⟨other, unwound⟩
      · cases here
        refine .inl ⟨rfl, stops, store, fun e member => ?_⟩
        rcases List.mem_append.1 member with member | member
        · exact out e member
        · rw [List.mem_singleton] at member
          exact ⟨_, by rw [member, stopOfSome stops, store]⟩
      · exact .inr ⟨other, unwound.append (by simp)⟩
    · cases same
      exact .inl ⟨rfl, rfl, rfl, by simp⟩
  | @call id t w w₁ w' home params args l r fine start inner _ ih =>
    subst start
    have live₁ := World.enteredLive live.sound fine
    have size : w.store.scopes.size < (w.after (.enter home params args)).store.scopes.size :=
      live₁.there _ rfl
    rcases splitAround place with same | ⟨_, rest, inside, _, rfl⟩ | ⟨same, _⟩
    · cases same
    · rcases splitCons inside with ⟨_, same, _⟩ | ⟨_, _, inside'⟩
      · cases same
      · have new : w.store.scopes.size ≤ j := by
          have opened : .left j u (.error s) st ∈ l := by simp [inside']
          rcases inner.scopes live₁.sound opened rfl with here | ⟨low, _⟩
          · exact Nat.le_of_eq (Option.some.inj here)
          · exact Nat.le_trans (Nat.le_of_lt size) low
        refine .inr ⟨fun mine => Nat.not_lt_of_le new (live.there j mine), ?_⟩
        rcases ih live₁ inside' with ⟨here, stops, store, out⟩ | ⟨_, unwound⟩
        · cases here
          refine ⟨rest, [], ?_, out, by simp⟩
          rw [stopOfSome stops, store]
        · exact unwound.append (by simp)
    · cases same
  | program known => exact absurd known (bare _ _)

end Trace

/-! Runs -/

theorem endingNoReturn {o : Outcome (Option Value)} (tells : o.store.Tells o.result)
    (never : ∀ a v, o.result ≠ .error (.returned a v)) {v : Value} (u : Value)
    (ended : o.ending = .finished (some v)) : o.store.object? v ≠ some (.returned u) := by
  obtain ⟨l, r, st⟩ := o
  intro found
  rcases r with (⟨a, f⟩ | ⟨a, v'⟩ | _ | _) | _ | v'
  · cases ended
    cases tells.symm.trans found
  · exact never a v' rfl
  · cases ended
  · cases ended
  · cases ended
  · cases ended
    cases v with
    | ref a =>
      obtain ⟨o, there, plain⟩ := tells
      cases there.symm.trans found
      cases plain
    | _ => cases found

section
variable {w : World} {id : ScopeId} {body : List Tree} {line : Nat} {limits : Limits}

theorem innerNoProgram (body : List Tree) (line : Nat) : ¬ Tree.Inner (.program body line) := by
  intro inner
  cases inner with
  | node here _ => cases here

theorem programUnwinds (live : w.Live Tree.Inner (some id)) (known : ∀ t ∈ body, t.Inner)
    {front back : List Event} {j : ScopeId} {t : Tree} {stop : Stop} {st : Store}
    (place : (limits.trace id (.program body line) w.store).events =
      front ++ .left j t (.error stop) st :: back) :
    (back = [] ∨ Unwinds j stop st back) ∧
      (j = id → (limits.trace id (.program body line) w.store).result = handed (.error stop) ∧
        (limits.trace id (.program body line) w.store).store = st) := by
  rcases programOutcome (everyHereditary _) live known limits with cut | ⟨l, w', r, trace, _, outcome⟩
  · rw [cut] at place
    simp at place
  · rw [outcome] at place ⊢
    rcases splitAround place with same | ⟨_, _, activation, _, rfl⟩ | ⟨same, rfl⟩
    · cases same
    · rcases splitAround activation with same | ⟨_, rest, inside, _, rfl⟩ | ⟨same, _⟩
      · cases same
      · rcases trace.unwinds innerNoProgram live inside with
          ⟨here, stops, store, out⟩ | ⟨other, unwound⟩
        · cases here
          have answer := congrArg handed (stopOfSome stops)
          have unwound : Unwinds id stop st (rest ++ [.answered id (handed r) w'.store]) :=
            ⟨rest, [], by rw [answer, store], out, by simp⟩
          exact ⟨.inr (unwound.append (by simp)), fun _ => ⟨answer, store⟩⟩
        · have unwound' : Unwinds j stop st (rest ++ [.answered id (handed r) w'.store]) :=
            unwound.append (by simp)
          exact ⟨.inr (unwound'.append (by simp)), fun mine => absurd (congrArg some mine).symm other⟩
      · cases same
    · have answer : handed r = .error stop := (Option.some.inj (congrArg Event.result? same)).symm
      refine ⟨.inl rfl, fun _ => ⟨?_, (congrArg Event.store same).symm⟩⟩
      rw [← answer, handedTwice]

theorem programNeverReturned (live : w.Live Tree.Inner (some id)) (known : ∀ t ∈ body, t.Inner)
    (a : Addr) (v : Value) :
    (limits.trace id (.program body line) w.store).result ≠ .error (.returned a v) := by
  rcases programOutcome (everyHereditary _) live known limits with cut | ⟨l, w', r, _, _, outcome⟩
  · rw [cut]
    simp
  · rw [outcome]
    exact fun same => handedReturned (congrArg stopOf same)

end

theorem applyNoReturn {P : Tree → Prop} {w : World} (closed : Hereditary P) (sound : w.Sound P)
    (limits : Limits) (fn : Value) {args : List Value} (fine : ∀ v ∈ args, w.Ordinary v) {v : Value}
    (u : Value) (ended : ((limits.apply fn args).finish w.store).1 = .finished (some v)) :
    ((limits.apply fn args).finish w.store).2.object? v ≠ some (.returned u) := by
  rw [← Limits.eraseTraceApply, finishErase] at ended ⊢
  have live : w.Live P none := ⟨sound, nofun⟩
  have follows : Follows P none .missing w (limits.traceApply fn args) fun r w' => w'.Fine r :=
    followsApply closed limits live fn fine
  obtain ⟨w', last, trace, given⟩ := follows
  refine endingNoReturn ?_ (fun a v same => trace.neverReturned a v (congrArg stopOf same)) u ended
  rw [← last]
  exact trace.resultTells sound fun v result => given _ result v rfl

/-- A run of a parsed source, told by its log: every result is data, nothing or a signal; a signal ends
its activation; an error ends them all and is the result of the run; and no return is a result, of the
run or of a call. Calls are made with usable values. -/
theorem signalsNeverSwallowed {s : Session} (h : s.Reachable fun _ => True) {source : String}
    {tree : Tree} (parsed : parse source = .ok ⟨tree, []⟩) :
    s.execute tree = ((s.trace tree).ending, { s with store := (s.trace tree).store }) ∧
    (∀ e ∈ (s.trace tree).events, ∀ r, e.result? = some r → e.store.Tells r) ∧
    (∀ front j t stop st back,
      (s.trace tree).events = front ++ .left j t (.error stop) st :: back →
      (back = [] ∨ Unwinds j stop st back) ∧
        (j = s.root → (s.trace tree).result = handed (.error stop) ∧ (s.trace tree).store = st)) ∧
    (∀ front e back a f, (s.trace tree).events = front ++ e :: back → e.Raises a f →
      (∀ e' ∈ back, e'.Hands (.fault a f) e.store) ∧ e.store.objects[a]? = some (.error f) ∧
        s.execute tree = (.finished (some (.ref a)), { s with store := e.store })) ∧
    (∀ v u, (s.execute tree).1 = .finished (some v) →
      (s.execute tree).2.store.object? v ≠ some (.returned u)) ∧
    (∀ home params args st, .did (.enter home params args) st ∈ (s.trace tree).events →
      ∀ v ∈ args, st.Usable v) ∧
    ∀ limits fn args, (∀ v ∈ args, s.store.Usable v) → ∀ v u,
      ((Limits.apply limits fn args).finish s.store).1 = .finished (some v) →
      ((Limits.apply limits fn args).finish s.store).2.object? v ≠ some (.returned u) := by
  obtain ⟨w₀, shows₀⟩ := Session.reachableShows everyTree h
  obtain ⟨w, ⟨store, live⟩, ordinary⟩ := shows₀.usable
  obtain ⟨body, line, rfl, inner⟩ := parsedProgram parsed
  have live' : w.Live Tree.Inner (some s.root) := ⟨live.sound.mono fun _ both => both.1, live.there⟩
  have sound : w.Sound fun _ => True := live.sound.mono fun _ _ => trivial
  obtain ⟨st, root, limits⟩ := s
  cases store
  obtain ⟨w', last, trace, given⟩ := followsWithin everyTree limits.rounds limits.depth root .missing
    (.program body line) w ⟨sound, live.there⟩ trivial
  have ends : w'.store = (Session.trace ⟨w.store, root, limits⟩ (.program body line)).store := last
  refine ⟨Session.executeTrace .., fun e member r result => trace.tells sound member result,
    fun front j t stop st back place => programUnwinds live' inner place, ?_, fun v u ended => ?_,
    fun home params args st member => (trace.path sound).calledUsable sound member, ?_⟩
  · intro front e back a f place raises
    obtain ⟨stops, same, out⟩ := trace.crosses place raises
    have failed : (Session.trace ⟨w.store, root, limits⟩ (.program body line)).result = _ :=
      stopOfSome stops
    have found := (trace.stopped sound).1 a f stops
    rw [same] at found
    refine ⟨out, found, ?_⟩
    rw [Session.executeTrace, Outcome.ending, failed, ← ends, same]
    rfl
  · rw [Session.executeTrace] at ended ⊢
    refine endingNoReturn ?_ (programNeverReturned live' inner) u ended
    have told := trace.resultTells sound fun v result => given _ result v rfl
    rw [last] at told
    exact told
  · intro limits fn args usable v u ended
    exact applyNoReturn everyTree sound limits fn (fun v member => ordinary v (usable v member)) u ended

def negatedArray : Tree := .program
  [.statement (.call (.ident "doWhile" 1)
    [.function [] (.block [.statement (.unary .sub (.array [] 1) 1) 1] 1) 1] 1) 1,
   .statement (.number 1 1) 1] 1

theorem signalsNeverSwallowedNegatedArray :
    parse "doWhile(fun() { -[]; }); 1;" = .ok ⟨negatedArray, []⟩ ∧
      Session.new.execute negatedArray = (.finished (some (.ref 2)),
        { Session.new with store := (Session.new.trace negatedArray).store }) ∧
      (Session.new.trace negatedArray).store.objects[2]? = some (.error (.badOperand .sub .array)) := by
  have parsed : parse "doWhile(fun() { -[]; }); 1;" = .ok ⟨negatedArray, []⟩ := rfl
  have reached : Session.new.Reachable fun _ => True := ⟨.standard, .refl⟩
  have raised : (Session.new.trace negatedArray).events[17]? = some (.did
      (.alloc (.error (.badOperand .sub .array))) (Session.new.trace negatedArray).store) := rfl
  obtain ⟨front, back, place⟩ := List.append_of_mem (List.mem_of_getElem? raised)
  obtain ⟨_, _, _, errors, _⟩ := signalsNeverSwallowed reached parsed
  obtain ⟨_, found, ended⟩ := errors front _ back 2 (.badOperand .sub .array) place ⟨rfl, rfl⟩
  exact ⟨parsed, ended, found⟩

end Baby
