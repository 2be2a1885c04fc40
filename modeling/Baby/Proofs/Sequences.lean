import Baby.Proofs.Arithmetic

/-! The built-ins on arrays. They change nothing and fail by an error at most; and on an array they are the
operations of a sequence, with the very objects that it holds. -/
namespace Baby

/-! Replies -/

def Reply.outcome (st : Store) : Reply → Except Stop (Option Value) × Store
  | .ok (.old v) => (.ok (some v), st)
  | .ok (.fresh o) => (.ok (some (st.alloc o).1), (st.alloc o).2)
  | .ok .tooDeep => (.error .depth, st)
  | .error f => (.error (.fault st.objects.size f), (st.alloc (.error f)).2)

def Store.Reports (st : Store) (r : Except Stop (Option Value)) : Prop :=
  (∃ v, r = .ok (some v)) ∨ ∃ a f, r = .error (.fault a f) ∧ st.object? (.ref a) = some (.error f)

section
variable (st : Store) (reply : Reply)

theorem outcomeGrows : st.Grows (Reply.outcome st reply).2 := by
  rcases reply with f | v | o | _
  · exact st.growsAlloc (.error f)
  · exact .refl st
  · exact st.growsAlloc o
  · exact .refl st

theorem outcomeReports (shallow : reply ≠ .ok .tooDeep) :
    (Reply.outcome st reply).2.Reports (Reply.outcome st reply).1 := by
  rcases reply with f | v | o | _
  · exact .inr ⟨_, f, rfl, st.objectAlloc (.error f)⟩
  · exact .inl ⟨v, rfl⟩
  · exact .inl ⟨_, rfl⟩
  · exact absurd rfl shallow

theorem deliverOutcome : (some <$> Eval.deliver reply : Eval _).run.run st = Reply.outcome st reply := by
  rcases reply with f | v | o | _ <;> rfl

theorem answerOutcome (reply : Store → Reply) :
    (some <$> Eval.answer reply : Eval _).run.run st = Reply.outcome st (reply st) :=
  deliverOutcome st (reply st)

end

/-! Calls -/

def Builtin.isLibrary : Builtin → Bool
  | .doWhile | .print => false
  | _ => true

theorem libraryShallow (st : Store) (b : Builtin) (args : List Value) : st.libraryReply b args ≠ .ok .tooDeep := by
  have character (c : Option Char) : (.ok (Store.character c) : Reply) ≠ .ok .tooDeep := by
    cases c <;> nofun
  unfold Store.libraryReply
  split
  · unfold Store.lengthReply
    split <;> nofun
  · unfold Store.headReply
    split <;> first | exact character _ | nofun
  · unfold Store.tailReply
    split <;> first | exact character _ | nofun
  · unfold Store.restReply
    split
    case h_3 => split <;> nofun
    all_goals nofun
  · unfold Store.getReply
    cases st.elementAt .get _ _ <;> nofun
  · unfold Store.insertReply
    cases st.elementAt .insert _ _ <;> nofun
  · unfold Store.appendReply
    split <;> nofun
  · unfold Store.emptyReply
    split <;> nofun
  · nofun

def Limits.call (limits : Limits) (b : Builtin) (args : List Value) (st : Store) :
    Except Stop (Option Value) × Store :=
  (limits.apply (.builtin b) args).run.run st

theorem callOfLibrary (limits : Limits) {b : Builtin} (library : b.isLibrary = true) (args : List Value)
    (st : Store) : limits.call b args st = Reply.outcome st (st.libraryReply b args) := by
  rw [← answerOutcome st (·.libraryReply b args)]
  cases b with
  | doWhile | print => cases library
  | _ => rfl

def Store.Indexes (st : Store) (a i v : Value) : Prop :=
  ∀ (ev : Evaluator Eval) (rounds depth : Nat) (id : ScopeId) (target place : Tree) (line : Nat) (st₀ st₁ : Store),
    (ev id target).run.run st₀ = (.ok (some a), st₁) → (ev id place).run.run st₁ = (.ok (some i), st) →
      (Eval.step ev rounds depth id (.index target place line)).run.run st₀ = (.ok (some v), st)

theorem indexesOf {st : Store} {a i v : Value} (answered : st.indexReply a i = .ok (.old v)) :
    st.Indexes a i v := by
  intro ev rounds depth id target place line st₀ st₁ first second
  simp only [Eval.step]
  rw [Mimics.runBind, Eval.operandRun first]
  show (Eval.operand ev id place >>= _ : Eval _).run.run st₁ = _
  rw [Mimics.runBind, Eval.operandRun second]
  show (some <$> Eval.answer (·.indexReply a i) : Eval _).run.run st = _
  rw [answerOutcome, answered]
  rfl

/-! Arrays -/

theorem placeWithin {n : Int64} {k length : Nat} (same : n.toInt = k) (small : k < length) :
    Store.place? n length = some k := by
  unfold Store.place?
  rw [same]
  simp [small]

theorem placeOutside {n : Int64} {length : Nat} (outside : n.toInt < 0 ∨ length ≤ n.toInt) :
    Store.place? n length = none := by
  unfold Store.place?
  rw [if_neg]
  simp only [Bool.and_eq_true, decide_eq_true_eq]
  omega

section
variable (limits : Limits) (st : Store)

def Limits.Makes (b : Builtin) (args : List Value) (o : Object) : Prop :=
  ∃ r st', limits.call b args st = (.ok (some r), st') ∧ st'.object? r = some o

def Limits.Refuses (b : Builtin) (args : List Value) : Prop :=
  ∃ a f st', limits.call b args st = (.error (.fault a f), st') ∧ st'.object? (.ref a) = some (.error f)

/- The laws of a sequence, for the calls on an array and for its elements by place. -/
structure Store.Sequence (a : Value) (xs : List Value) : Prop where
  size : limits.call .isEmpty [a] st = (.ok (some (.boolean xs.isEmpty)), st) ∧
    limits.Makes st .len [a] (.integer (Int64.ofNat xs.length))
  ends : xs ≠ [] → ∃ x ys y, xs = x :: ys ∧ xs.getLast? = some y ∧
    limits.call .head [a] st = (.ok (some x), st) ∧ limits.call .tail [a] st = (.ok (some y), st) ∧
    limits.Makes st .rest [a] (.array ys)
  appends : ∀ vs, vs ≠ [] → limits.Makes st .append (a :: vs) (.array (xs ++ vs))
  within : ∀ i n (k : Nat), st.object? i = some (.integer n) → n.toInt = k → k < xs.length →
    ∃ x, xs[k]? = some x ∧ limits.call .get [a, i] st = (.ok (some x), st) ∧ st.Indexes a i x ∧
      ∀ v, ∃ ys, limits.Makes st .insert [a, i, v] (.array ys) ∧ ys.length = xs.length ∧ ys[k]? = some v ∧
        ∀ j, j ≠ k → ys[j]? = xs[j]?
  outside : ∀ i n, st.object? i = some (.integer n) → n.toInt < 0 ∨ xs.length ≤ n.toInt →
    limits.Refuses st .get [a, i] ∧ (∀ v, limits.Refuses st .insert [a, i, v]) ∧ st.Indexes a i .null

variable {limits st} {b : Builtin} (library : b.isLibrary = true) {args : List Value}
include library

theorem givesOf {v : Value} (answered : st.libraryReply b args = .ok (.old v)) :
    limits.call b args st = (.ok (some v), st) := by
  rw [callOfLibrary limits library, answered]
  rfl

theorem makesOf {o : Object} (answered : st.libraryReply b args = .ok (.fresh o)) :
    limits.Makes st b args o := by
  refine ⟨_, _, ?_, st.objectAlloc o⟩
  rw [callOfLibrary limits library, answered]
  rfl

theorem refusesOf {f : Fault} (answered : st.libraryReply b args = .error f) :
    limits.Refuses st b args := by
  refine ⟨_, f, _, ?_, st.objectAlloc (.error f)⟩
  rw [callOfLibrary limits library, answered]
  rfl

end

section
variable {st : Store} {a : Value} {xs : List Value} (held : st.object? a = some (.array xs))
include held

theorem elementWithin (b : Builtin) {i : Value} {n : Int64} {k : Nat}
    (place : st.object? i = some (.integer n)) (found : Store.place? n xs.length = some k) :
    st.elementAt b a i = .ok (xs, k) := by
  simp only [Store.elementAt, held, place, found]

theorem elementOutside (b : Builtin) {i : Value} {n : Int64} (place : st.object? i = some (.integer n))
    (none : Store.place? n xs.length = none) :
    st.elementAt b a i = .error (.placeRange b n xs.length) := by
  simp only [Store.elementAt, held, place, none]

theorem arraySequence (limits : Limits) : st.Sequence limits a xs where
  size := by
    refine ⟨givesOf rfl ?_, makesOf rfl ?_⟩
    · simp only [Store.libraryReply, Store.emptyReply, held, Reply.truth]
    · simp only [Store.libraryReply, Store.lengthReply, held, Reply.number, numberInteger]
      rfl
  ends some := by
    obtain ⟨x, ys, rfl⟩ := List.exists_cons_of_ne_nil some
    have last := List.getLast?_eq_some_getLast some
    refine ⟨x, ys, _, rfl, last, givesOf rfl ?_, givesOf rfl ?_, makesOf rfl ?_⟩
    · simp only [Store.libraryReply, Store.headReply, held, List.head?_cons, Option.getD_some]
    · simp only [Store.libraryReply, Store.tailReply, held, last, Option.getD_some]
    · simp only [Store.libraryReply, Store.restReply, held]
  appends vs some := by
    obtain ⟨v, vs, rfl⟩ := List.exists_cons_of_ne_nil some
    refine makesOf rfl ?_
    simp only [Store.libraryReply, Store.appendReply, held]
  within i n k place same small := by
    have found := placeWithin same small
    have element := List.getElem?_eq_getElem small
    refine ⟨_, element, givesOf rfl ?_, indexesOf ?_, ?_⟩
    · simp only [Store.libraryReply, Store.getReply, elementWithin held .get place found]
      show (.ok (.old (xs[k]?.getD .null)) : Reply) = _
      rw [element]
      rfl
    · simp only [Store.indexReply, held, place, found, Option.bind_some, element, Option.getD_some]
    · intro v
      refine ⟨xs.set k v, makesOf rfl ?_, List.length_set, List.getElem?_set_self small, ?_⟩
      · simp only [Store.libraryReply, Store.insertReply, elementWithin held .insert place found]
        rfl
      · intro j other
        exact List.getElem?_set_ne (Ne.symm other)
  outside i n place out := by
    have none := placeOutside out
    refine ⟨?_, ?_, indexesOf ?_⟩
    · have refused : st.libraryReply .get [a, i] = .error (.placeRange .get n xs.length) := by
        simp only [Store.libraryReply, Store.getReply, elementOutside held .get place none]
        rfl
      exact refusesOf rfl refused
    · intro v
      have refused : st.libraryReply .insert [a, i, v] = .error (.placeRange .insert n xs.length) := by
        simp only [Store.libraryReply, Store.insertReply, elementOutside held .insert place none]
        rfl
      exact refusesOf rfl refused
    · simp only [Store.indexReply, held, place, none, Option.bind_none, Option.getD_none]

end

/-- The built-ins on texts, arrays and hashes, whatever they are given, make new objects at most and fail
by an error only. On an array they are the operations of a sequence: its first element and the rest make
it up, its last one ends it, values are added behind, and a place within it can be read and replaced while
any other is refused, or null where it is only indexed. -/
theorem arraysAreSequences (limits : Limits) (st : Store) :
    (∀ b args, b.isLibrary = true → ∃ r st', limits.call b args st = (r, st') ∧ st.Grows st' ∧ st'.Reports r) ∧
      ∀ a xs, st.object? a = some (.array xs) → st.Sequence limits a xs := by
  constructor
  · intro b args library
    exact ⟨_, _, callOfLibrary limits library args st, outcomeGrows st _,
      outcomeReports st _ (libraryShallow st b args)⟩
  · intro a xs held
    exact arraySequence held limits

def threeElements : Store :=
  ⟨#[.integer 2, .string "b", .array [.ref 0, .ref 1, .ref 0], .integer (-1), .integer Int64.maxValue], #[], #[]⟩

theorem arraysAreSequencesThree :
    Limits.standard.call .head [.ref 2] threeElements = (.ok (some (.ref 0)), threeElements) ∧
      Limits.standard.Makes threeElements .rest [.ref 2] (.array [.ref 1, .ref 0]) ∧
      Limits.standard.call .get [.ref 2, .ref 0] threeElements = (.ok (some (.ref 0)), threeElements) ∧
      Limits.standard.Refuses threeElements .get [.ref 2, .ref 3] ∧
      threeElements.Indexes (.ref 2) (.ref 4) .null := by
  obtain ⟨_, arrays⟩ := arraysAreSequences .standard threeElements
  have laws := arrays (.ref 2) [.ref 0, .ref 1, .ref 0] rfl
  obtain ⟨x, ys, y, split, _, first, _, rest⟩ := laws.ends (by simp)
  cases split
  obtain ⟨x, found, got, _⟩ := laws.within (.ref 0) 2 2 rfl rfl (by decide)
  cases found
  have before := laws.outside (.ref 3) (-1) rfl (.inl (by decide))
  have behind := laws.outside (.ref 4) Int64.maxValue rfl (.inr (by decide))
  exact ⟨first, rest, got, before.1, behind.2.2⟩

end Baby
