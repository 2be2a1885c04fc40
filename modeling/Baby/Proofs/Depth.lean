import Baby.Proofs.Bisimilarity
import Baby.Proofs.Printing
import Baby.Proofs.Signals

/-! The limit on the nesting matters only where it is hit, by trees or by what is compared or printed in them.
A run that it does not stop goes the same way under every higher limit; a run that it stops is over, for
nothing takes this stop. -/
namespace Baby
open Machine (look perform visit)

/-! Watched evaluation -/

def Eval.watched (rounds : Nat) : Nat → Evaluator Traced
  | 0 => fun id t => visit id t (throw Stop.depth)
  | n + 1 => node (watched rounds n) rounds n

theorem Traced.eraseWatched (rounds depth : Nat) (id : ScopeId) (t : Tree) :
    erase (Eval.watched rounds depth id t) = Eval.within rounds depth id t := by
  have every : erasing.Evaluates (Eval.watched rounds depth) (Eval.within rounds depth) := by
    induction depth with
    | zero =>
      rintro id t w u _ rfl
      rfl
    | succ depth ih => exact erasing.node ih rounds rfl
  exact every id .missing () t t rfl

/- Whatever ends because the limit was hit is the end of everything: only the trees and activations around
it come after it, they end with it too, and the store stays as it was. -/
def Outcome.Sinks {α : Type} (o : Outcome α) : Prop :=
  ∀ front e back, o.events = front ++ e :: back → e.result? = some (.error .depth) →
    o.result = .error .depth ∧ o.store = e.store ∧ ∀ e' ∈ back, e'.Hands .depth e.store

theorem handsResult {e : Event} {stop : Stop} {st : Store} (result : e.result? = some (.error stop))
    (same : e.store = st) : e.Hands stop st := by
  cases e with
  | left id t r st' | answered id r st' =>
    exact ⟨Option.some.inj result, same⟩
  | _ => cases result

namespace Outcome

theorem sinksNone {α : Type} (result : Except Stop α) (st : Store) : Sinks ⟨[], result, st⟩ := by
  intro front e back place
  simp at place

theorem Sinks.around {o : Outcome (Option Value)} (h : o.Sinks) {first last : Event}
    {r : Except Stop (Option Value)} (starts : first.result? = none) (ends : last.result? = some r)
    (same : last.store = o.store) (through : o.result = .error .depth → r = .error .depth) :
    Sinks ⟨first :: o.events ++ [last], r, o.store⟩ := by
  intro front e back place deep
  rcases splitAround place with rfl | ⟨start, rest, inside, _, rfl⟩ | ⟨rfl, rfl⟩
  · rw [starts] at deep
    cases deep
  · obtain ⟨result, store, all⟩ := h start e rest inside deep
    rw [through result] at ends
    exact ⟨through result, store, handsConcat all (handsResult ends (same.trans store))⟩
  · rw [ends] at deep
    exact ⟨Option.some.inj deep, same.symm, by simp⟩

end Outcome

/-! Two limits -/

structure Deepens {α : Type} (x y : Traced α) : Prop where
  sinks : ∀ st, (x st).Sinks
  same : ∀ st, (x st).result ≠ .error .depth → y st = x st

namespace Deepens
variable {α β : Type}

theorem pure (a : α) : Deepens (pure a) (pure a) :=
  ⟨fun st => Outcome.sinksNone (.ok a) st, fun _ _ => rfl⟩

theorem throw (stop : Stop) : Deepens (throw stop : Traced α) (throw stop) :=
  ⟨fun st => Outcome.sinksNone (.error stop) st, fun _ _ => rfl⟩

theorem stopped (y : Traced α) : Deepens (MonadExcept.throw Stop.depth) y :=
  ⟨fun st => Outcome.sinksNone (.error .depth) st, fun _ free => absurd rfl free⟩

theorem bind {x y : Traced α} {f g : α → Traced β} (first : Deepens x y)
    (rest : ∀ a, Deepens (f a) (g a)) : Deepens (x >>= f) (y >>= g) := by
  show Deepens (Traced.bind x f) (Traced.bind y g)
  constructor
  · intro st
    have sinks := first.sinks st
    unfold Traced.bind
    rcases outcome : x st with ⟨l, stop | a, st₁⟩
    · intro front e back place deep
      rw [outcome] at sinks
      obtain ⟨result, store, all⟩ := sinks front e back place deep
      cases result
      exact ⟨rfl, store, all⟩
    · intro front e back place deep
      rw [outcome] at sinks
      rcases splitAppend place with ⟨rest', inside, _⟩ | ⟨start, _, inside⟩
      · -- The first part came to its end, so the limit was not hit there.
        obtain ⟨result, _⟩ := sinks front e rest' inside deep
        cases result
      · exact (rest a).sinks st₁ start e back inside deep
  · intro st free
    unfold Traced.bind at free ⊢
    have same := first.same st
    rcases outcome : x st with ⟨l, stop | a, st₁⟩
    · rw [outcome] at same free
      rw [same fun deep => free (by cases deep; rfl)]
    · rw [outcome] at same free
      rw [same (by simp)]
      dsimp only at free ⊢
      rw [(rest a).same st₁ free]

theorem map {x y : Traced α} (h : Deepens x y) (k : α → β) : Deepens (k <$> x) (k <$> y) :=
  h.bind fun a => .pure (k a)

theorem look {f g : Store → Traced β} (rest : ∀ st, Deepens (f st) (g st)) :
    Deepens (Machine.look >>= f) (Machine.look >>= g) :=
  ⟨fun st => (rest st).sinks st, fun st free => by
    have here : (f st st).result ≠ .error .depth := free
    exact congrArg (fun o : Outcome β => (⟨[] ++ o.events, o.result, o.store⟩ : Outcome β))
      ((rest st).same st here)⟩

theorem act (act : Act) : Deepens (perform act) (perform act) := by
  constructor
  · intro st front e back place deep
    rcases splitCons place with ⟨_, rfl, _⟩ | ⟨start, _, none⟩
    · cases deep
    · simp at none
  · exact fun _ _ => rfl

theorem visited {x y : Traced (Option Value)} (h : Deepens x y) (id : ScopeId) (t : Tree) :
    Deepens (visit id t x) (visit id t y) := by
  constructor
  · exact fun st => (h.sinks st).around rfl rfl rfl fun deep => deep
  · intro st free
    have inner : (x st).result ≠ .error .depth := free
    show (⟨.entered id t st :: (y st).events ++ [.left id t (y st).result (y st).store], (y st).result,
      (y st).store⟩ : Outcome (Option Value)) = _
    rw [h.same st inner]
    rfl

theorem takeReturn {x y : Traced (Option Value)} (h : Deepens x y) (id : ScopeId) :
    Deepens (Eval.takeReturn id x) (Eval.takeReturn id y) := by
  have through (st : Store) (deep : (x st).result = .error .depth) :
      handed (x st).result = .error .depth := by
    rw [deep]
    rfl
  constructor
  · intro st
    rw [takeReturnOutcome]
    exact (h.sinks st).around rfl rfl rfl (through st)
  · intro st free
    rw [takeReturnOutcome] at free ⊢
    rw [takeReturnOutcome, h.same st fun deep => free (through st deep)]

/-! Parts of the evaluator -/

theorem alloc (o : Object) : Deepens (Eval.alloc o) (Eval.alloc o) := (act _).bind fun _ => .pure _

theorem fail (fault : Fault) : Deepens (Eval.fail fault : Traced α) (Eval.fail fault) :=
  (act _).bind fun _ => .throw _

theorem leave (v : Value) : Deepens (Eval.leave v : Traced α) (Eval.leave v) :=
  (act _).bind fun _ => .throw _

theorem deliver (reply : Reply) : Deepens (Eval.deliver reply) (Eval.deliver reply) := by
  rcases reply with fault | v | o | _
  · exact fail fault
  · exact pure v
  · exact alloc o
  · exact throw _

theorem answer {reply reply' : Store → Reply} (same : ∀ st, reply st = .ok .tooDeep ∨ reply' st = reply st) :
    Deepens (Eval.answer reply) (Eval.answer reply') := by
  refine look fun st => ?_
  rcases same st with deep | same
  · rw [deep]
    exact stopped _
  · rw [same]
    exact deliver _

theorem file (d : Dict HashKey Entry) (key value : Value) :
    Deepens (Eval.file d key value) (Eval.file d key value) := by
  refine (act (.copy key)).bind fun key => look fun st => ?_
  split
  · exact pure _
  · exact fail _

theorem printLine {d d' : Nat} (more : d ≤ d') (v : Value) :
    Deepens (Eval.printLine d v) (Eval.printLine d' v) := by
  refine look fun st => ?_
  cases text : st.inspectWithin d [] v with
  | none => exact stopped _
  | some text' =>
    rw [Store.inspectWithinMore more text]
    exact act _

end Deepens

theorem Store.binaryMore (st : Store) {d d' : Nat} (more : d ≤ d') (op : Op) (v w : Value) :
    st.binaryReply d op v w = .ok .tooDeep ∨ st.binaryReply d' op v w = st.binaryReply d op v w := by
  cases compared : st.equalWithin d [] v w with
  | none =>
    cases op with
    | equal | notEqual => exact .inl (by simp [binaryReply, compared, Reply.truth?])
    | _ => exact .inr rfl
  | some b =>
    have later := equalWithinMore more compared
    cases op with
    | equal | notEqual => exact .inr (by simp [binaryReply, compared, later])
    | _ => exact .inr rfl

def deepening : Walk (.flat Eq Eq Eq (· ≤ ·) True) Traced Traced where
  Rel _ _ _ x y _ := Deepens x y
  goodLater _ _ := trivial
  filedLater _ _ := trivial
  homeLater _ _ := trivial
  goodNull := trivial
  goodBoolean := trivial
  filedNone := trivial
  shape := Terms.flatShape
  called _ same := same
  held := Terms.flatHeld
  pure _ := .pure _
  bind first rest := first.bind fun a => rest () a trivial (Terms.flatHolds _ a)
  map h _ := h.map _
  look rest := .look fun st => rest st st rfl
  limit _ := .throw _
  marked _ _ _ _ stop := .throw stop
  fail f := .fail f
  leave _ := .leave _
  alloc := by rintro _ _ _ _ _ (_ | _ | _ | _ | rfl) <;> exact .alloc _
  answer := by
    rintro _ _ _ _ _ asks
    cases asks with
    | binary deep op u v => exact .answer fun st => st.binaryMore deep op u v
    | _ => exact .answer fun _ => .inr rfl
  file _ _ _ := .file _ _ _
  act _ _ := .act _
  printLine _ more _ := .printLine more _
  call _ _ _ rest := (Deepens.act _).bind fun j => (rest j ()).takeReturn j
  program _ h := h.takeReturn _
  visit := by
    rintro id _ u _ _ x y rfl h
    exact h.visited id u

/- Induction on the lower limit. At zero it stops whatever the other one does. -/
theorem watchedDeepens (rounds : Nat) {d d' : Nat} (more : d ≤ d') :
    deepening.Evaluates (Eval.watched rounds d) (Eval.watched rounds d') := by
  induction d generalizing d' with
  | zero =>
    intro id t w u u' _
    exact ⟨fun st => (Outcome.sinksNone (.error .depth) st).around rfl rfl rfl fun deep => deep,
      fun st free => absurd rfl free⟩
  | succ d ih =>
    cases d' with
    | zero => cases more
    | succ d' =>
      have less := Nat.le_of_succ_le_succ more
      exact deepening.node (ih less) rounds less

/-! Sessions -/

namespace Session

def allowing (s : Session) (depth : Nat) : Session := { s with limits := { s.limits with depth } }

def watch (s : Session) (t : Tree) : Outcome (Option Value) :=
  Eval.watched s.limits.rounds s.limits.depth s.root t s.store

theorem executeWatch (s : Session) (t : Tree) :
    s.execute t = ((s.watch t).ending, { s with store := (s.watch t).store }) := by
  have finished := finishErase (Eval.watched s.limits.rounds s.limits.depth s.root t) s.store
  rw [Traced.eraseWatched] at finished
  unfold execute Limits.eval
  rw [finished]
  rfl

theorem endingDeep (o : Outcome (Option Value)) : o.ending = .tooDeep ↔ o.result = .error .depth := by
  unfold Outcome.ending
  rcases o.result with (_ | _ | _ | _) | _ <;> simp [Ending.ofStop]

theorem watchSinks (s : Session) (t : Tree) : (s.watch t).Sinks :=
  (watchedDeepens s.limits.rounds (Nat.le_refl s.limits.depth) s.root .missing () t t rfl).sinks s.store

theorem watchMore (s : Session) (t : Tree) {d d' : Nat} (more : d ≤ d')
    (free : ((s.allowing d).watch t).ending ≠ .tooDeep) :
    (s.allowing d').watch t = (s.allowing d).watch t :=
  (watchedDeepens s.limits.rounds more s.root .missing () t t rfl).same s.store fun deep =>
    free ((endingDeep _).2 deep)

theorem watchEnds (s : Session) (t : Tree) :
    .left s.root t (s.watch t).result (s.watch t).store ∈ (s.watch t).events := by
  unfold watch
  cases s.limits.depth with
  | zero => exact List.mem_append_right _ (List.mem_singleton.2 rfl)
  | succ d => exact List.mem_append_right _ (List.mem_singleton.2 rfl)

theorem executeMore (s : Session) (t : Tree) {d d' : Nat} (more : d ≤ d')
    (free : ((s.allowing d).execute t).1 ≠ .tooDeep) :
    ((s.allowing d').execute t).1 = ((s.allowing d).execute t).1 ∧
      ((s.allowing d').execute t).2.store = ((s.allowing d).execute t).2.store := by
  rw [executeWatch] at free ⊢
  rw [executeWatch, watchMore s t more free]
  exact ⟨rfl, rfl⟩

end Session

/-! Comparing and printing -/

/- What is compared or printed under the lower limit comes out the same under the higher one and without a
limit. What nests deeper is the stop, with nothing done; with enough room nothing does. -/
structure Store.Limited (st : Store) (d d' : Nat) : Prop where
  compared : ∀ v w b, st.equalWithin d [] v w = some b → st.equalWithin d' [] v w = some b ∧ st.equal v w = b
  printed : ∀ v text, st.inspectWithin d [] v = some text →
    st.inspectWithin d' [] v = some text ∧ (st.Ends v → st.inspect v = text)
  stopped : ∀ v w op, op = .equal ∨ op = .notEqual → st.equalWithin d [] v w = none →
    (Eval.answer (·.binaryReply d op v w) : Eval Value).run.run st = (.error .depth, st)
  unprinted : ∀ v, st.inspectWithin d [] v = none →
    (Eval.printLine d v : Eval Unit).run.run st = (.error .depth, st)
  room : st.objects.size * st.objects.size < d → ∀ v w, ∃ b, st.equalWithin d [] v w = some b
  printedRoom : st.inspectDepth ≤ d → ∀ v, st.Ends v → ∃ text, st.inspectWithin d [] v = some text

theorem Store.limited (st : Store) {d d' : Nat} (more : d ≤ d') : st.Limited d d' where
  compared _ _ _ found := ⟨equalWithinMore more found, equalWithinEqual found⟩
  printed _ _ found := ⟨inspectWithinMore more found, fun ends => ends.inspectSome found⟩
  stopped := by
    intro v w op contents deep
    have reply : st.binaryReply d op v w = .ok .tooDeep := by
      rcases contents with rfl | rfl <;> simp [binaryReply, deep, Reply.truth?]
    show (Eval.deliver (st.binaryReply d op v w) : Eval Value).run.run st = _
    rw [reply]
    rfl
  unprinted := by
    intro v deep
    have looked (f : Store → Eval Unit) : (Machine.look >>= f).run.run st = (f st).run.run st := rfl
    rw [Eval.printLine, looked, deep]
    rfl
  room enough v w := ⟨_, equalWithinEnough enough v w⟩
  printedRoom enough _ ends := ⟨_, ends.inspectWithin enough⟩

/-- A run that the limit on the nesting does not stop ends alike, with the same store and output, under
every higher limit. In the log of a run that it stops, the first tree or activation that ends with this
stop is followed by those around it alone, which end with it as well, and so does the run. A comparison or a
line of print that meets the limit is such a stop too, and one that does not meet it is what it is without. -/
theorem depthOnlyStops (s : Session) {d d' : Nat} (more : d ≤ d') :
    (∀ st : Store, st.Limited d d') ∧
    (∀ source, ((s.allowing d).run source).1 ≠ .tooDeep →
      ((s.allowing d').run source).1 = ((s.allowing d).run source).1 ∧
      ((s.allowing d').run source).2.store = ((s.allowing d).run source).2.store) ∧
    ∀ t, (((s.allowing d).execute t).1 ≠ .tooDeep →
        ((s.allowing d').execute t).1 = ((s.allowing d).execute t).1 ∧
        ((s.allowing d').execute t).2.store = ((s.allowing d).execute t).2.store) ∧
      (s.allowing d).execute t = (((s.allowing d).watch t).ending,
        { s.allowing d with store := ((s.allowing d).watch t).store }) ∧
      (((s.allowing d).execute t).1 = .tooDeep ↔
        ∃ e ∈ ((s.allowing d).watch t).events, e.result? = some (.error .depth)) ∧
      ∀ front e back, ((s.allowing d).watch t).events = front ++ e :: back →
        e.result? = some (.error .depth) →
        (s.allowing d).execute t = (.tooDeep, { s.allowing d with store := e.store }) ∧
        ∀ e' ∈ back, e'.Hands .depth e.store := by
  have stopped (t : Tree) (front : List Event) (e : Event) (back : List Event)
      (place : ((s.allowing d).watch t).events = front ++ e :: back)
      (deep : e.result? = some (.error .depth)) :
      (s.allowing d).execute t = (.tooDeep, { s.allowing d with store := e.store }) ∧
        ∀ e' ∈ back, e'.Hands .depth e.store := by
    obtain ⟨result, store, all⟩ := (s.allowing d).watchSinks t front e back place deep
    rw [Session.executeWatch, (Session.endingDeep _).2 result, store]
    exact ⟨rfl, all⟩
  refine ⟨fun st => st.limited more, ?_, ?_⟩
  · intro source free
    unfold Session.run at free ⊢
    split at free
    · exact ⟨rfl, rfl⟩
    · exact s.executeMore _ more free
    · exact ⟨rfl, rfl⟩
  · intro t
    refine ⟨s.executeMore t more, Session.executeWatch .., ⟨fun ended => ?_, ?_⟩, stopped t⟩
    · rw [Session.executeWatch] at ended
      exact ⟨_, (s.allowing d).watchEnds t, congrArg some ((Session.endingDeep _).1 ended)⟩
    · rintro ⟨e, member, deep⟩
      obtain ⟨front, back, place⟩ := List.append_of_mem member
      rw [(stopped t front e back place deep).1]

def countdown : String := "let f = fun(n) \x7b if (n) \x7b f(false) \x7d \x7d; f(true)"

def negation : Tree := .unary .not (.null 1) 1

def deepArrays : Session :=
  (Session.new.run "let a = [1]; let b = [a]; let c = [b]; let x = [1]; let y = [x]; let z = [y];").2

theorem depthOnlyStopsCountdown :
    ((Session.new.run countdown).1 = ((Session.new.allowing 20).run countdown).1 ∧
      (Session.new.run countdown).2.store = ((Session.new.allowing 20).run countdown).2.store) ∧
    (Session.new.allowing 1).execute negation = (.tooDeep, Session.new.allowing 1) ∧
    (((deepArrays.allowing 6).run "c == z").1 = .tooDeep ∧ ((deepArrays.allowing 6).run "print(c)").1 = .tooDeep) ∧
    ((deepArrays.allowing 10000).run "c == z").1 = .finished (some (.boolean true)) ∧
    deepArrays.store.Limited 3 4 := by
  have free : ((Session.new.allowing 20).run countdown).1 ≠ .tooDeep := by decide +kernel
  have ends : ((deepArrays.allowing 7).run "c == z").1 = .finished (some (.boolean true)) ∧
      ((deepArrays.allowing 6).run "c == z").1 = .tooDeep ∧
      ((deepArrays.allowing 6).run "print(c)").1 = .tooDeep := by decide +kernel
  obtain ⟨compared, stops⟩ := ends
  have standard : Session.new.allowing 10000 = Session.new := rfl
  obtain ⟨_, runs, _⟩ := depthOnlyStops Session.new (show 20 ≤ 10000 by decide)
  rw [standard] at runs
  obtain ⟨_, _, trees⟩ := depthOnlyStops Session.new (Nat.le_refl 1)
  obtain ⟨_, _, _, stopped⟩ := trees negation
  have place : ((Session.new.allowing 1).watch negation).events =
      [.entered 0 negation Session.new.store, .entered 0 (.null 1) Session.new.store] ++
        .left 0 (.null 1) (.error .depth) Session.new.store ::
          [.left 0 negation (.error .depth) Session.new.store] := rfl
  obtain ⟨_, alike, _⟩ := depthOnlyStops deepArrays (show 7 ≤ 10000 by decide)
  have ended := (alike "c == z" (by rw [compared]; simp)).1.trans compared
  exact ⟨runs countdown free, (stopped _ _ _ place rfl).1, stops, ended,
    (depthOnlyStops deepArrays (show 3 ≤ 4 by decide)).1 deepArrays.store⟩

end Baby
