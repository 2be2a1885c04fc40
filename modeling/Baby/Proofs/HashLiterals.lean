import Baby.Proofs.Sessions

/-! A pair of a hash literal is filed under the hash key that its key has once its value is known. This is
the hash key of what was given, unless the value is a program that assigns to a name of the very key. -/
namespace Baby

/-! Objects along a log -/

def Store.after (st : Store) (l : List Event) : Store := l.foldl (fun _ e => e.store) st

def Overwrites (st : Store) (l : List Event) (v : Value) : Prop :=
  ∃ front j name u st' back, l = front ++ .did (.assign j name u) st' :: back ∧
    (st.after front).lookup j name = some v

section
variable {st : Store} {a : Addr} {o : Object}

theorem bindAllObjects (st : Store) (id : ScopeId) (names : List String) (vs : List Value) :
    (st.bindAll id names vs).objects = st.objects := by
  induction names generalizing st vs with
  | nil => rfl
  | cons name names ih =>
    cases vs with
    | nil => rfl
    | cons v vs => exact ih (st.bind id name v) vs

theorem copySpares (v : Value) (found : st.objects[a]? = some o) : (st.copy v).2.objects[a]? = some o := by
  rcases World.copyCases st v with ⟨new, _, _, same⟩ | ⟨_, same⟩
  · rw [same]
    exact World.pushOld found
  · rw [same]
    exact found

theorem assignSparesOthers (j : ScopeId) (name : String) (u : Value) (found : st.objects[a]? = some o) :
    (st.assign j name u).2.objects[a]? = some o ∨ st.lookup j name = some (.ref a) := by
  rcases World.assignCases st j name u with ⟨refusal, same⟩ | ⟨_, same⟩ |
    ⟨owner, held, resolved, bound, _, ⟨_, same⟩ | ⟨_, same⟩⟩
  · rw [same]
    exact .inl found
  · rw [same]
    exact .inl (copySpares u found)
  · have looked : st.lookup j name = some held := by
      simp only [Store.lookup, resolved, Option.bind_eq_bind, Option.bind_some, bound]
    rw [same, looked]
    rcases World.overwriteCases st held u with kept | ⟨b, old, new, rfl, here, _, _, _, written⟩
    · rw [kept]
      exact .inl found
    · by_cases other : b = a
      · rw [other]
        exact .inr rfl
      · rw [written]
        exact .inl ((World.writeFound here).2 (by rw [if_neg other]; exact found))
  · rw [same]
    exact .inl found

theorem actSpares (act : Act) (found : st.objects[a]? = some o) :
    (act.run st).2.objects[a]? = some o ∨
      ∃ j name u, act = .assign j name u ∧ st.lookup j name = some (.ref a) := by
  cases act with
  | alloc new => exact .inl (World.pushOld found)
  | copy v => exact .inl (copySpares v found)
  | bind id name v => exact .inl found
  | assign id name v =>
    rcases assignSparesOthers id name v found with kept | held
    · exact .inl kept
    · exact .inr ⟨id, name, v, rfl, held⟩
  | enter home params args =>
    have same : ((Act.enter home params args).run st).2.objects = st.objects := bindAllObjects _ _ params args
    rw [same]
    exact .inl found
  | print v => exact .inl found

theorem Overwrites.further {e : Event} {l : List Event} {v : Value} (h : Overwrites e.store l v) :
    Overwrites st (e :: l) v := by
  obtain ⟨front, j, name, u, st', back, rfl, held⟩ := h
  exact ⟨e :: front, j, name, u, st', back, rfl, held⟩

theorem Path.spares {P : Tree → Prop} {own : ScopeId → Prop} {w w' : World} {l : List Event}
    (h : Path P own w l w') (found : w.store.objects[a]? = some o) :
    w'.store.objects[a]? = some o ∨ Overwrites w.store l (.ref a) := by
  induction h with
  | nil => exact .inl found
  | quiet still same rest ih =>
    rcases ih found with kept | written
    · exact .inl kept
    · rw [← same] at written
      exact .inr written.further
  | @act w w' id t act l mine fine rest ih =>
    rcases actSpares act found with kept | ⟨j, name, u, rfl, held⟩
    · exact (ih kept).imp_right Overwrites.further
    · exact .inr ⟨[], j, name, u, _, l, rfl, held⟩

end

/-! Filings -/

/- A pair of a literal as it was evaluated: what its key and its value gave, the store when the key was
known, what the value then did, and the store when the value was known too. -/
structure Filing where
  key : Value
  value : Value
  keyed : Store
  events : List Event
  valued : Store

namespace Filing

def given (f : Filing) : Option HashKey := f.keyed.hashKey? f.key

def filed (f : Filing) : Option HashKey := f.valued.hashKey? f.key

end Filing

structure Filing.Of (ev : Evaluator Traced) (id : ScopeId) (p : Tree × Tree) (st : Store) (f : Filing) :
    Prop where
  key : ∃ l, Eval.operand ev id p.1 st = ⟨l, .ok f.key, f.keyed⟩
  given : ∃ k, f.given = some k
  value : Eval.operand ev id p.2 f.keyed = ⟨f.events, .ok f.value, f.valued⟩
  filed : ∃ k, f.filed = some k

inductive Fills (ev : Evaluator Traced) (id : ScopeId) :
    Store → List (Tree × Tree) → List Filing → Store → Prop
  | none {st} : Fills ev id st [] [] st
  | pair {st p f ps fs st'} (first : f.Of ev id p st) (rest : Fills ev id (f.valued.copy f.key).2 ps fs st') :
      Fills ev id st (p :: ps) (f :: fs) st'

theorem Outcome.parts {α : Type} {o : Outcome α} {r : Except Stop α} {st : Store} (result : o.result = r)
    (last : o.store = st) : o = ⟨o.events, r, st⟩ := by
  rw [← result, ← last]

theorem Traced.bindOk {α β : Type} {x : Traced α} {f : α → Traced β} {st st' : Store} {l : List Event}
    {b : β} (ran : (x >>= f) st = ⟨l, .ok b, st'⟩) :
    ∃ a l₁ st₁ l₂, x st = ⟨l₁, .ok a, st₁⟩ ∧ f a st₁ = ⟨l₂, .ok b, st'⟩ := by
  have opened : Traced.bind x f st = ⟨l, .ok b, st'⟩ := ran
  unfold Traced.bind at opened
  rcases outcome : x st with ⟨l₁, stop | a, st₁⟩
  · rw [outcome] at opened
    cases opened
  · rw [outcome] at opened
    exact ⟨a, l₁, st₁, (f a st₁).events, rfl,
      Outcome.parts (congrArg Outcome.result opened) (congrArg Outcome.store opened)⟩

theorem hashObject {st st' : Store} {v v' : Value} {o : Object} (found : st.object? v = some o)
    (found' : st'.object? v' = some o) : st'.hashKey? v' = st.hashKey? v := by
  cases v with
  | ref a =>
    cases v' with
    | ref b =>
      have here : st.objects[a]? = some o := found
      have there : st'.objects[b]? = some o := found'
      simp only [Store.hashKey?, here, there]
    | _ => cases found'
  | _ => cases found

theorem copyHash (st : Store) (v : Value) : (st.copy v).2.hashKey? (st.copy v).1 = st.hashKey? v := by
  rcases World.copyCases st v with ⟨o, found, _, same⟩ | ⟨_, same⟩
  · rw [same]
    exact hashObject found (st.objectAlloc o)
  · rw [same]

section
variable {ev : Evaluator Traced} {id : ScopeId} {d d' : Dict HashKey Entry} {st st' : Store} {l : List Event}

theorem failIfOk {bad : Bool} {fault : Fault} {r : Unit}
    (ran : (Eval.failIf bad fault : Traced Unit) st = ⟨l, .ok r, st'⟩) : bad = false ∧ st' = st := by
  cases bad with
  | true => cases ran
  | false =>
    cases ran
    exact ⟨rfl, rfl⟩

theorem fileOk {key value : Value} (ran : (Eval.file d key value : Traced _) st = ⟨l, .ok d', st'⟩) :
    ∃ k, st.hashKey? key = some k ∧ d' = d.put k ⟨(st.copy key).1, value⟩ ∧ st' = (st.copy key).2 := by
  obtain ⟨_, _, _, _, copied, afterCopy⟩ := Traced.bindOk ran
  cases copied
  obtain ⟨_, _, _, _, looked, files⟩ := Traced.bindOk afterCopy
  cases looked
  have copied : (st.copy key).2.hashKey? (st.copy key).1 = st.hashKey? key := copyHash st key
  simp only [Act.run, copied] at files
  cases filed : st.hashKey? key with
  | none =>
    rw [filed] at files
    cases files
  | some k =>
    rw [filed] at files
    cases files
    exact ⟨k, rfl, rfl, rfl⟩

theorem entriesPair {p : Tree × Tree} {ps : List (Tree × Tree)}
    (ran : Eval.entries ev id d (p :: ps) st = ⟨l, .ok d', st'⟩) :
    ∃ (f : Filing) (k : HashKey) (l' : List Event), f.Of ev id p st ∧ f.filed = some k ∧
      Eval.entries ev id (d.put k ⟨(f.valued.copy f.key).1, f.value⟩) ps (f.valued.copy f.key).2 =
        ⟨l', .ok d', st'⟩ := by
  obtain ⟨key, l₁, st₁, _, keyed, afterKey⟩ := Traced.bindOk ran
  obtain ⟨_, _, _, _, looked, checks⟩ := Traced.bindOk afterKey
  cases looked
  obtain ⟨_, _, st₂, _, checked, afterCheck⟩ := Traced.bindOk checks
  obtain ⟨hashable, same⟩ := failIfOk checked
  have given := Option.isSome_iff_exists.1 (Option.isNone_eq_false_iff.1 hashable)
  obtain ⟨value, l₂, st₃, _, valued, afterValue⟩ := Traced.bindOk afterCheck
  obtain ⟨_, _, _, l₃, files, rest⟩ := Traced.bindOk afterValue
  obtain ⟨k, filed, rfl, rfl⟩ := fileOk files
  rw [same] at valued
  exact ⟨⟨key, value, st₁, l₂, st₃⟩, k, l₃, ⟨⟨l₁, keyed⟩, given, valued, ⟨k, filed⟩⟩, filed, rest⟩

theorem entriesFill {ps : List (Tree × Tree)} (ran : Eval.entries ev id d ps st = ⟨l, .ok d', st'⟩) :
    ∃ fs, Fills ev id st ps fs st' ∧ ∀ k, (d'.get? k).map Entry.value =
      ((fs.reverse.find? fun f => f.filed = some k).map Filing.value).or ((d.get? k).map Entry.value) := by
  induction ps generalizing d st l with
  | nil =>
    cases ran
    exact ⟨[], .none, fun k => rfl⟩
  | cons p ps ih =>
    obtain ⟨f, k, l', first, filed, rest⟩ := entriesPair ran
    obtain ⟨fs, fills, last⟩ := ih rest
    refine ⟨f :: fs, .pair first fills, ?_⟩
    intro k'
    rw [last k', List.reverse_cons, List.find?_append, Option.map_or, Option.or_assoc]
    congr 1
    by_cases same : k' = k
    · rw [same, Dict.getPutSelf]
      simp [filed]
    · rw [Dict.getPutOther _ _ same]
      have other : f.filed ≠ some k' := by
        intro equal
        exact same (Option.some.inj (equal.symm.trans filed))
      simp [other]

end

section
variable {P : Tree → Prop} {ev : Evaluator Traced} {id : ScopeId} {w : World}

theorem Path.sparesKey {own : ScopeId → Prop} {w' : World} {l : List Event} {v : Value} {k : HashKey}
    (h : Path P own w l w') (hashed : w.store.hashKey? v = some k) :
    w'.store.hashKey? v = w.store.hashKey? v ∨ Overwrites w.store l v := by
  cases v with
  | ref a =>
    cases found : w.store.objects[a]? with
    | none =>
      simp only [Store.hashKey?, found] at hashed
      cases hashed
    | some o =>
      have here : w.store.object? (.ref a) = some o := found
      exact (h.spares found).imp_left (hashObject here)
  | _ => exact .inl rfl

theorem operandPath (closed : Hereditary P) (h : Evaluates P ev) (live : w.Live P (some id)) {t : Tree}
    (known : P t) {v : Value} {l : List Event} {st : Store} (ran : Eval.operand ev id t w.store = ⟨l, .ok v, st⟩) :
    ∃ w' : World, w'.store = st ∧ w'.Live P (some id) ∧ Path P (w.Reaches (some id)) w l w' ∧
      w'.Ordinary v := by
  obtain ⟨w', last, trace, fine⟩ := followsOperand (t := .missing) closed h live known
  rw [ran] at last trace fine
  exact ⟨w', last, live.later (trace.later live.sound) (trace.sound live.sound), trace.path live.sound,
    fine v rfl⟩

theorem Filing.Of.fair {p : Tree × Tree} {f : Filing} (of : f.Of ev id p w.store)
    (closed : Hereditary P) (h : Evaluates P ev) (live : w.Live P (some id)) (known : P p.1 ∧ P p.2) :
    (f.filed = f.given ∨ Overwrites f.keyed f.events f.key) ∧
      ∃ w' : World, w'.store = (f.valued.copy f.key).2 ∧ w'.Live P (some id) := by
  obtain ⟨l, keyed⟩ := of.key
  obtain ⟨w₁, same₁, live₁, _, fine⟩ := operandPath closed h live known.1 keyed
  have valued := of.value
  rw [← same₁] at valued
  obtain ⟨w₂, same₂, live₂, path, _⟩ := operandPath closed h live₁ known.2 valued
  obtain ⟨k, given⟩ := of.given
  constructor
  · have hashed : w₁.store.hashKey? f.key = some k := by
      rw [same₁]
      exact given
    have spared := path.sparesKey hashed
    rw [same₁, same₂] at spared
    exact spared
  · have allowed : w₂.Admissible P (some id) .missing (.copy f.key) :=
      fine.later (path.later live₁.sound).1
    rw [← same₂]
    exact ⟨w₂.after (.copy f.key), rfl,
      live₂.later (World.actLater live₂.sound allowed) (World.actSound live₂.sound allowed)⟩

theorem Fills.fair {st st' : Store} {ps : List (Tree × Tree)} {fs : List Filing}
    (fills : Fills ev id st ps fs st') (closed : Hereditary P) (h : Evaluates P ev) (live : w.Live P (some id))
    (same : w.store = st) (known : ∀ p ∈ ps, P p.1 ∧ P p.2) :
    ∀ f ∈ fs, f.filed = f.given ∨ Overwrites f.keyed f.events f.key := by
  induction fills generalizing w with
  | none => exact List.forall_mem_nil _
  | @pair st p f ps fs st' first rest ih =>
    rw [← same] at first
    obtain ⟨fair, w', same', live'⟩ := first.fair closed h live (known p List.mem_cons_self)
    have others := ih live' same' fun q member => known q (List.mem_cons_of_mem p member)
    exact List.forall_mem_cons.2 ⟨fair, others⟩

end

/-! Literals -/

theorem evalOutcome {limits : Limits} {id : ScopeId} {t : Tree} {st st' : Store}
    {r : Except Stop (Option Value)} (ended : (limits.eval id t).run.run st = (r, st')) :
    limits.trace id t st = ⟨(limits.trace id t st).events, r, st'⟩ := by
  rw [← Limits.eraseTrace] at ended
  exact Outcome.parts (congrArg Prod.fst ended) (congrArg Prod.snd ended)

def Limits.inner (limits : Limits) : Limits := { limits with depth := limits.depth - 1 }

theorem literalEntries {limits : Limits} {id : ScopeId} {w : World} (live : w.Live (fun _ => True) (some id))
    {pairs : List (Tree × Tree)} {line : Nat} {l : List Event} {r : Option Value} {st' : Store}
    (ended : limits.trace id (.hash pairs line) w.store = ⟨l, .ok r, st'⟩) :
    ∃ d l' last, Eval.entries limits.inner.trace id .empty pairs w.store = ⟨l', .ok d, last⟩ ∧
      r = some (last.alloc (.hash d)).1 ∧ st' = (last.alloc (.hash d)).2 := by
  obtain ⟨depth, rounds⟩ := limits
  cases depth with
  | zero => cases ended
  | succ depth =>
    obtain ⟨w', same, _, fine⟩ := followsStep everyTree rounds depth live (t := .hash pairs line) trivial
    have outcome := withinOutcome rfl same fun v result => fine _ result v rfl
    have whole := outcome.symm.trans ended
    have stepped : (Eval.step (Eval.within rounds depth) rounds depth id (.hash pairs line) : Traced _) w.store =
        ⟨_, .ok r, st'⟩ := Outcome.parts (congrArg Outcome.result whole) (congrArg Outcome.store whole)
    obtain ⟨d, l₁, last, _, filled, made⟩ := Traced.bindOk stepped
    cases made
    exact ⟨d, l₁, last, filled, rfl, rfl⟩

/-- The pairs of a hash literal are evaluated in order, and each is filed under the hash key that its key
has once its own value is known. This is the hash key of what its key expression gave, unless a name of
that very object was assigned to on the way to the value. Later pairs change none of it: one of the same
hash key takes the place, and every entry is found in the end by the hash key that its own key has. -/
theorem hashLiteralFiles {s : Session} (h : s.Reachable fun _ => True) (limits : Limits) {id : ScopeId}
    (there : id < s.store.scopes.size) (pairs : List (Tree × Tree)) (line : Nat) {r : Option Value}
    {st' : Store} (ended : (limits.eval id (.hash pairs line)).run.run s.store = (.ok r, st')) :
    ∃ v d fs last, r = some v ∧ st'.object? v = some (.hash d) ∧
      Fills limits.inner.trace id s.store pairs fs last ∧
      (∀ f ∈ fs, f.filed = f.given ∨ Overwrites f.keyed f.events f.key) ∧
      (∀ k, (d.get? k).map Entry.value =
        (fs.reverse.find? fun f => f.filed = some k).map Filing.value) ∧
      ∀ k e, d.get? k = some e → st'.hashKey? e.key = some k := by
  obtain ⟨w, shows⟩ := Session.reachableShows everyTree h
  rw [← shows.store] at there ended ⊢
  have live : w.Live (fun _ => True) (some id) :=
    ⟨shows.live.sound.mono fun _ _ => trivial, fun j same => Option.some.inj same ▸ there⟩
  have outcome := evalOutcome ended
  obtain ⟨d, l, last, filled, rfl, rfl⟩ := literalEntries live outcome
  obtain ⟨fs, fills, values⟩ := entriesFill filled
  have found := last.objectAlloc (.hash d)
  have evaluates := followsWithin everyTree limits.inner.rounds limits.inner.depth
  have fair := fills.fair everyTree evaluates live rfl fun _ _ => ⟨trivial, trivial⟩
  have filed : ∀ k e, d.get? k = some e → (last.alloc (.hash d)).2.hashKey? e.key = some k := by
    obtain ⟨w', same, trace, _⟩ :=
      followsWithin everyTree limits.rounds limits.depth id .missing (.hash pairs line) w live trivial
    have final : w'.store = (last.alloc (.hash d)).2 := same.trans (congrArg Outcome.store outcome)
    rw [← final] at found ⊢
    intro k e entry
    exact ((trace.sound live.sound).object found k e entry).1.1
  exact ⟨_, d, fs, last, rfl, found, fills, fair, fun k => (values k).trans (Option.or_none ..), filed⟩

def keyHolder : Session := (Session.new.run "let k = 1;").2

def changingPair : Tree × Tree :=
  (.ident "k" 1, .call (.function [] (.block [.assign "k" .assign (.number 2 1) 1] 1) 1) [] 1)

theorem hashLiteralMisfiles :
    (Limits.standard.eval 0 changingPair.1).run.run keyHolder.store = (.ok (some (.ref 1)), keyHolder.store) ∧
      keyHolder.store.hashKey? (.ref 1) = some ⟨.integer, 1⟩ ∧
      ∃ v d st',
        (Limits.standard.eval 0 (.hash [changingPair] 1)).run.run keyHolder.store = (.ok (some v), st') ∧
        st'.object? v = some (.hash d) ∧ d.keys = [⟨.integer, 2⟩] := by
  exact ⟨rfl, rfl, _, _, _, rfl, rfl, rfl⟩

theorem hashLiteralFilesChangingPair :
    ∃ v st', (Limits.standard.eval 0 (.hash [changingPair] 1)).run.run keyHolder.store = (.ok (some v), st') ∧
      ∃ fs last, Fills Limits.standard.inner.trace 0 keyHolder.store [changingPair] fs last ∧
        ∀ f ∈ fs, f.filed = f.given ∨ Overwrites f.keyed f.events f.key := by
  have reached : keyHolder.Reachable fun _ => True := ⟨.standard, .single (.run _ fun _ _ => trivial)⟩
  refine ⟨_, _, rfl, ?_⟩
  obtain ⟨_, _, fs, last, _, _, fills, fair, _⟩ :=
    hashLiteralFiles reached .standard Nat.zero_lt_one [changingPair] 1 rfl
  exact ⟨fs, last, fills, fair⟩

end Baby
