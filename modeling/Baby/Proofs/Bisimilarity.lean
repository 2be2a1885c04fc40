import Mathlib.Data.List.ProdSigma
import Mathlib.Data.List.Perm.Subperm
import Mathlib.Data.List.Zip
import Mathlib.Logic.Relation
import Mathlib.Order.Bounds.Basic
import Baby.Store.Equality

/-! Equality of contents is bisimilarity, whatever contains itself. The comparison is followed without
its bound: `Compares` has a derivation just where the comparison ends, and the bound is shown to be
out of reach. -/
namespace Baby.Store

/-! Bisimilarity -/

/- Two values are alike up to `R`. Null, the booleans and the built-ins are one object each, and a
function is like no other. -/
inductive Alike (st : Store) (R : Value → Value → Prop) : Value → Value → Prop where
  | same (v : Value) : Alike st R v v
  | integer {v w n} (left : st.object? v = some (.integer n))
      (right : st.object? w = some (.integer n)) : Alike st R v w
  | string {v w s} (left : st.object? v = some (.string s))
      (right : st.object? w = some (.string s)) : Alike st R v w
  | array {v w xs ys} (left : st.object? v = some (.array xs))
      (right : st.object? w = some (.array ys)) (long : xs.length = ys.length)
      (elements : ∀ p ∈ xs.zip ys, R p.1 p.2) : Alike st R v w
  | hash {v w d e} (left : st.object? v = some (.hash d)) (right : st.object? w = some (.hash e))
      (keys : ∀ k, k ∈ d.keys ↔ k ∈ e.keys)
      (values : ∀ k p q, d.get? k = some p → e.get? k = some q → R p.value q.value) : Alike st R v w

def Bisimulation (st : Store) (R : Value → Value → Prop) : Prop := ∀ v w, R v w → Alike st R v w

section
variable {st : Store} {R S : Value → Value → Prop} {u v w : Value}

theorem Alike.mono (h : Alike st R v w) (imp : ∀ a b, R a b → S a b) : Alike st S v w := by
  cases h with
  | same => exact .same v
  | integer left right => exact .integer left right
  | string left right => exact .string left right
  | array left right long elements =>
    exact .array left right long fun p member => imp _ _ (elements p member)
  | hash left right keys values =>
    exact .hash left right keys fun k p q found found' => imp _ _ (values k p q found found')

theorem Alike.symm (h : Alike st R v w) : Alike st (flip R) w v := by
  cases h with
  | same => exact .same v
  | integer left right => exact .integer right left
  | string left right => exact .string right left
  | array left right long elements =>
    refine .array right left long.symm fun p member => ?_
    rw [← List.zip_swap, List.mem_map] at member
    obtain ⟨q, member, rfl⟩ := member
    exact elements q member
  | hash left right keys values =>
    exact .hash right left (fun k => (keys k).symm) fun k p q found found' => values k q p found' found

theorem zipMiddle {α : Type} {xs ys zs : List α} (long : xs.length = ys.length) {p : α × α}
    (member : p ∈ xs.zip zs) : ∃ y, (p.1, y) ∈ xs.zip ys ∧ (y, p.2) ∈ ys.zip zs := by
  induction xs generalizing ys zs with
  | nil => simp at member
  | cons x xs ih =>
    cases ys with
    | nil => simp at long
    | cons y ys =>
      cases zs with
      | nil => simp at member
      | cons z zs =>
        rw [List.zip_cons_cons, List.mem_cons] at member
        cases member with
        | inl first => exact ⟨y, by simp [first], by simp [first]⟩
        | inr later =>
          obtain ⟨b, left, right⟩ := ih (by simpa using long) later
          exact ⟨b, by simp [left], by simp [right]⟩

theorem Alike.comp (refl : ∀ a, R a a) (h : Alike st R u v) (k : Alike st R v w) :
    Alike st (Relation.Comp R R) u w := by
  cases h with
  | same => exact k.mono fun a _ related => ⟨a, refl a, related⟩
  | integer left right =>
    cases k with
    | same => exact .integer left right
    | integer left' right' =>
      rw [right] at left'
      cases left'
      exact .integer left right'
    | string left' | array left' | hash left' => simp [right] at left'
  | string left right =>
    cases k with
    | same => exact .string left right
    | string left' right' =>
      rw [right] at left'
      cases left'
      exact .string left right'
    | integer left' | array left' | hash left' => simp [right] at left'
  | array left right long elements =>
    cases k with
    | same => exact .array left right long fun p member => ⟨p.1, refl _, elements p member⟩
    | array left' right' long' elements' =>
      rw [right] at left'
      cases left'
      refine .array left right' (long.trans long') fun p member => ?_
      obtain ⟨y, first, second⟩ := zipMiddle long member
      exact ⟨y, elements _ first, elements' _ second⟩
    | integer left' | string left' | hash left' => simp [right] at left'
  | @hash _ d e left right keys values =>
    cases k with
    | same =>
      exact .hash left right keys fun k p q found found' => ⟨p.value, refl _, values k p q found found'⟩
    | hash left' right' keys' values' =>
      rw [right] at left'
      cases left'
      refine .hash left right' (fun k => (keys k).trans (keys' k)) fun k p q found found' => ?_
      have inside : k ∈ e.keys := (keys k).1 (List.mem_map.2 ⟨_, Dict.getMem found, rfl⟩)
      obtain ⟨r, there⟩ := Dict.containsGet.1 (decide_eq_true inside)
      exact ⟨r.value, values k p r found there, values' k r q there found'⟩
    | integer left' | string left' | array left' => simp [right] at left'

end

/-! Parts -/

def parts? (st : Store) (v w : Value) : Option (List (Value × Value)) :=
  match st.object? v, st.object? w with
  | some (.integer a), some (.integer b) => if a = b then some [] else none
  | some (.string a), some (.string b) => if a = b then some [] else none
  | some (.array xs), some (.array ys) => if xs.length = ys.length then some (xs.zip ys) else none
  | some (.hash d), some (.hash e) =>
      if sameKeys d e then
        some (d.entries.filterMap fun p => (e.get? p.1).map fun q => (p.2.value, q.value))
      else none
  | _, _ => none

def Nests (st : Store) (v w : Value) : Bool :=
  match st.object? v, st.object? w with
  | some (.array _), some (.array _) | some (.hash _), some (.hash _) => true
  | _, _ => false

theorem sameKeysIff (d e : Dict HashKey Entry) :
    sameKeys d e = true ↔ ∀ k, k ∈ d.keys ↔ k ∈ e.keys := by
  simp only [sameKeys, Dict.contains, Bool.and_eq_true, List.all_eq_true, decide_eq_true_eq]
  exact ⟨fun h k => ⟨h.1 k, h.2 k⟩, fun h => ⟨fun k => (h k).1, fun k => (h k).2⟩⟩

theorem sameKeysGet {d e : Dict HashKey Entry} (same : sameKeys d e = true) {x : HashKey × Entry}
    (member : x ∈ d.entries) : ∃ y, e.get? x.1 = some y := by
  have inside : x.1 ∈ e.keys := ((sameKeysIff d e).1 same x.1).1 (List.mem_map.2 ⟨x, member, rfl⟩)
  exact Dict.containsGet.1 (decide_eq_true inside)

section
variable {α β : Type} {p q : α → Option Bool} {l : List α}

theorem allMCons (x : α) (l : List α) :
    (x :: l).allM p = (p x).bind fun b => if b then l.allM p else some false := by
  rw [List.allM]
  cases p x with
  | none => rfl
  | some b => cases b <;> rfl

theorem allMTrue : l.allM p = some true ↔ ∀ x ∈ l, p x = some true := by
  induction l with
  | nil => simp [List.allM]
  | cons x l ih =>
    rw [allMCons, List.forall_mem_cons, ← ih]
    rcases p x with _ | _ | _ <;> simp

theorem allMFalse (h : l.allM p = some false) :
    ∃ front x back, l = front ++ x :: back ∧ (∀ y ∈ front, p y = some true) ∧ p x = some false := by
  induction l with
  | nil => cases h
  | cons x l ih =>
    rw [allMCons] at h
    rcases here : p x with _ | _ | _
    · rw [here] at h
      cases h
    · exact ⟨[], x, l, rfl, by simp, here⟩
    · rw [here] at h
      obtain ⟨front, y, back, rfl, good, bad⟩ := ih h
      exact ⟨x :: front, y, back, rfl, List.forall_mem_cons.2 ⟨here, good⟩, bad⟩

theorem allMSome (each : ∀ x ∈ l, ∃ b, p x = some b) : ∃ b, l.allM p = some b := by
  induction l with
  | nil => exact ⟨true, rfl⟩
  | cons x l ih =>
    obtain ⟨⟨b, here⟩, rest⟩ := List.forall_mem_cons.1 each
    rw [allMCons, here]
    cases b with
    | true => exact ih rest
    | false => exact ⟨false, rfl⟩

theorem allMMono (more : ∀ x ∈ l, ∀ b, p x = some b → q x = some b) {b : Bool} (h : l.allM p = some b) :
    l.allM q = some b := by
  induction l with
  | nil => exact h
  | cons x l ih =>
    obtain ⟨first, rest⟩ := List.forall_mem_cons.1 more
    rw [allMCons] at h ⊢
    rcases here : p x with _ | _ | _
    · rw [here] at h
      cases h
    · rw [here] at h
      rw [first _ here]
      exact h
    · rw [here] at h
      rw [first _ here]
      exact ih rest h

theorem allMFilterMap {f : β → Option α} {g : β → Option Bool} {l : List β}
    (each : ∀ y ∈ l, ∃ x, f y = some x ∧ g y = p x) : l.allM g = (l.filterMap f).allM p := by
  induction l with
  | nil => rfl
  | cons y l ih =>
    obtain ⟨⟨x, found, same⟩, rest⟩ := List.forall_mem_cons.1 each
    rw [List.filterMap_cons_some found, allMCons, allMCons, same, ih rest]

end

theorem equalWithinStep (st : Store) (n : Nat) (active : List (Value × Value)) (v w : Value) :
    st.equalWithin (n + 1) active v w =
      if v = w ∨ (st.Nests v w = true ∧ (v, w) ∈ active) then some true
      else
        match st.parts? v w with
        | some ps => ps.allM fun p => st.equalWithin n ((v, w) :: active) p.1 p.2
        | none => some false := by
  rw [equalWithin]
  unfold Nests parts?
  by_cases same : v = w
  · rw [if_pos same, if_pos (.inl same)]
  rw [if_neg same]
  generalize st.object? v = o
  generalize st.object? w = o'
  split
  · next a b => by_cases equal : a = b <;> simp [same, equal, List.allM]
  · next a b => by_cases equal : a = b <;> simp [same, equal, List.allM]
  · next xs ys => by_cases long : xs.length = ys.length <;> simp [same, long]
  · next d e =>
    by_cases keys : sameKeys d e = true
    · simp only [same, if_pos keys, false_or, true_and]
      split
      · rfl
      · refine allMFilterMap fun p member => ?_
        obtain ⟨q, there⟩ := sameKeysGet keys member
        exact ⟨(p.2.value, q.value), by rw [there]; rfl, by rw [there]⟩
    · simp only [same, if_neg keys, false_or, true_and]
  · simp_all

section
variable {st : Store} {R : Value → Value → Prop} {v w : Value} {ps active : List (Value × Value)}

theorem partsAlike (rests : st.parts? v w = some ps) (related : ∀ p ∈ ps, R p.1 p.2) :
    Alike st R v w := by
  unfold parts? at rests
  split at rests
  · next left right =>
    split at rests
    · next same => exact .integer left (same ▸ right)
    · cases rests
  · next left right =>
    split at rests
    · next same => exact .string left (same ▸ right)
    · cases rests
  · next left right =>
    split at rests
    · next long =>
      cases rests
      exact .array left right long related
    · cases rests
  · next d e left right =>
    split at rests
    · next same =>
      cases rests
      refine .hash left right ((sameKeysIff d e).1 same) fun k p q found found' => ?_
      exact related (p.value, q.value)
        (List.mem_filterMap.2 ⟨(k, p), Dict.getMem found, by simp [found']⟩)
    · cases rests
  · cases rests

theorem alikeParts (h : Alike st R v w) (other : v ≠ w) :
    ∃ ps, st.parts? v w = some ps ∧ ∀ p ∈ ps, R p.1 p.2 := by
  cases h with
  | same => exact absurd rfl other
  | integer left right => exact ⟨[], by simp [parts?, left, right], by simp⟩
  | string left right => exact ⟨[], by simp [parts?, left, right], by simp⟩
  | @array _ xs ys left right long elements =>
    exact ⟨xs.zip ys, by simp [parts?, left, right, long], elements⟩
  | @hash _ d e left right keys values =>
    have same := (sameKeysIff d e).2 keys
    refine ⟨_, by simp only [parts?, left, right, same, if_true]; rfl, fun p member => ?_⟩
    obtain ⟨x, inside, found⟩ := List.mem_filterMap.1 member
    obtain ⟨y, found', rfl⟩ := Option.map_eq_some_iff.1 found
    exact values x.1 x.2 y (Dict.memGet inside) found'

theorem partsNest (rests : st.parts? v w = some ps) (more : ps ≠ []) : st.Nests v w = true := by
  unfold parts? at rests
  unfold Nests
  split at rests
  · split at rests <;> simp_all
  · split at rests <;> simp_all
  · next left right => rw [left, right]
  · next left right => rw [left, right]
  · cases rests

theorem nestsPlaces (h : st.Nests v w = true) :
    ∃ a b : Addr, (v, w) = (.ref a, .ref b) ∧ a < st.objects.size ∧ b < st.objects.size := by
  have place (x : Value) (o : Object) (found : st.object? x = some o) :
      ∃ a : Addr, x = .ref a ∧ a < st.objects.size := by
    cases x with
    | ref a => exact ⟨a, rfl, (Array.getElem?_eq_some_iff.1 found).1⟩
    | _ => cases found
  unfold Nests at h
  split at h
  · next left right =>
    obtain ⟨a, rfl, small⟩ := place v _ left
    obtain ⟨b, rfl, small'⟩ := place w _ right
    exact ⟨a, b, rfl, small, small'⟩
  · next left right =>
    obtain ⟨a, rfl, small⟩ := place v _ left
    obtain ⟨b, rfl, small'⟩ := place w _ right
    exact ⟨a, b, rfl, small, small'⟩
  · cases h

end

/-! Comparisons -/

def Fresh (st : Store) (active : List (Value × Value)) (v w : Value) : Prop :=
  v ≠ w ∧ ¬ (st.Nests v w = true ∧ (v, w) ∈ active)

/- How two values are compared inside the pairs that are being compared further out: part by part, up
to the first two that differ. -/
inductive Compares (st : Store) : List (Value × Value) → Value → Value → Bool → Prop where
  | same {active} (v : Value) : Compares st active v v true
  | assumed {active v w} (nests : st.Nests v w = true) (held : (v, w) ∈ active) :
      Compares st active v w true
  | equal {active v w ps} (fresh : st.Fresh active v w) (rests : st.parts? v w = some ps)
      (inner : ∀ p ∈ ps, Compares st ((v, w) :: active) p.1 p.2 true) : Compares st active v w true
  | differs {active v w front p back} (fresh : st.Fresh active v w)
      (rests : st.parts? v w = some (front ++ p :: back))
      (alike : ∀ q ∈ front, Compares st ((v, w) :: active) q.1 q.2 true)
      (inner : Compares st ((v, w) :: active) p.1 p.2 false) : Compares st active v w false
  | apart {active v w} (fresh : st.Fresh active v w) (none : st.parts? v w = none) :
      Compares st active v w false

structure Noted (st : Store) (active : List (Value × Value)) : Prop where
  distinct : active.Nodup
  there : ∀ p ∈ active, ∃ a b : Addr, p = (.ref a, .ref b) ∧ a < st.objects.size ∧ b < st.objects.size

section
variable {st : Store} {v w : Value} {active : List (Value × Value)}

theorem Noted.length (h : st.Noted active) : active.length ≤ st.objects.size * st.objects.size := by
  have every : active ⊆ (List.range st.objects.size ×ˢ List.range st.objects.size).map
      fun p => (Value.ref p.1, Value.ref p.2) := by
    intro p member
    obtain ⟨a, b, rfl, small, small'⟩ := h.there p member
    exact List.mem_map.2 ⟨(a, b), by simp [small, small'], rfl⟩
  simpa [List.length_product] using (h.distinct.subperm every).length_le

theorem Noted.cons (h : st.Noted active) (nests : st.Nests v w = true) (fresh : st.Fresh active v w) :
    st.Noted ((v, w) :: active) := by
  refine ⟨List.nodup_cons.2 ⟨fun held => fresh.2 ⟨nests, held⟩, h.distinct⟩, ?_⟩
  rw [List.forall_mem_cons]
  exact ⟨nestsPlaces nests, h.there⟩

theorem equalWithinCompares (n : Nat) {b : Bool} (h : st.equalWithin n active v w = some b) :
    Compares st active v w b := by
  induction n generalizing active v w b with
  | zero => cases h
  | succ n ih =>
    rw [equalWithinStep] at h
    split at h
    · next known =>
      cases h
      rcases known with rfl | ⟨nests, held⟩
      · exact .same v
      · exact .assumed nests held
    · next unknown =>
      have fresh : st.Fresh active v w := not_or.1 unknown
      cases rests : st.parts? v w with
      | none =>
        rw [rests] at h
        cases h
        exact .apart fresh rests
      | some ps =>
        rw [rests] at h
        cases b with
        | true => exact .equal fresh rests fun p member => ih (allMTrue.1 h p member)
        | false =>
          obtain ⟨front, p, back, rfl, good, bad⟩ := allMFalse h
          exact .differs fresh rests (fun q member => ih (good q member)) (ih bad)

theorem equalWithinEnds (n : Nat) (noted : st.Noted active)
    (enough : st.objects.size * st.objects.size < n + active.length) (v w : Value) :
    ∃ b, st.equalWithin n active v w = some b := by
  induction n generalizing active v w with
  | zero =>
    have := noted.length
    omega
  | succ n ih =>
    rw [equalWithinStep]
    split
    · exact ⟨true, rfl⟩
    · next unknown =>
      cases rests : st.parts? v w with
      | none => exact ⟨false, rfl⟩
      | some ps =>
        refine allMSome fun p member => ?_
        have nests := partsNest rests (List.ne_nil_of_mem member)
        exact ih (noted.cons nests (not_or.1 unknown)) (by rw [List.length_cons]; omega) p.1 p.2

theorem equalWithinMore {n m : Nat} (more : n ≤ m) {b : Bool} (h : st.equalWithin n active v w = some b) :
    st.equalWithin m active v w = some b := by
  induction n generalizing m active v w b with
  | zero => cases h
  | succ n ih =>
    cases m with
    | zero => cases more
    | succ m =>
      rw [equalWithinStep] at h ⊢
      split at h
      · next known =>
        rw [if_pos known]
        exact h
      · next unknown =>
        rw [if_neg unknown]
        cases rests : st.parts? v w with
        | none =>
          rw [rests] at h
          exact h
        | some ps =>
          rw [rests] at h
          exact allMMono (fun p _ b => ih (Nat.le_of_succ_le_succ more)) h

theorem equalWithinEnough {n : Nat} (enough : st.objects.size * st.objects.size < n) (v w : Value) :
    st.equalWithin n [] v w = some (st.equal v w) := by
  have noted : st.Noted [] := ⟨.nil, by simp⟩
  obtain ⟨b, found⟩ := equalWithinEnds _ noted (Nat.lt_succ_self _) v w
  have same : st.equal v w = b := by
    unfold equal
    rw [found]
    cases b <;> rfl
  rw [same]
  exact equalWithinMore enough found

theorem equalCompares (st : Store) (v w : Value) : Compares st [] v w (st.equal v w) :=
  equalWithinCompares _ (equalWithinEnough (Nat.lt_succ_self _) v w)

theorem comparesFresh {b : Bool} (h : Compares st active v w b) (no : b = false) :
    st.Fresh active v w := by
  cases h with
  | differs fresh | apart fresh => exact fresh
  | same | assumed | equal => cases no

theorem comparesOnce {b b' : Bool} (h : Compares st active v w b) (k : Compares st active v w b') :
    b = b' := by
  induction h generalizing b' with
  | same v =>
    cases b' with
    | true => rfl
    | false => exact absurd rfl (comparesFresh k rfl).1
  | assumed nests held =>
    cases b' with
    | true => rfl
    | false => exact absurd ⟨nests, held⟩ (comparesFresh k rfl).2
  | equal _ rests _ ih =>
    cases k with
    | same | assumed | equal => rfl
    | apart _ none => cases rests.symm.trans none
    | differs _ rests' _ inner =>
      cases rests.symm.trans rests'
      exact ih _ (by simp) inner
  | differs fresh rests _ _ _ ih =>
    cases k with
    | same => exact absurd rfl fresh.1
    | assumed nests held => exact absurd ⟨nests, held⟩ fresh.2
    | differs | apart => rfl
    | equal _ rests' inner =>
      cases rests.symm.trans rests'
      exact ih (inner _ (by simp))
  | apart fresh none =>
    cases k with
    | same => exact absurd rfl fresh.1
    | assumed nests held => exact absurd ⟨nests, held⟩ fresh.2
    | differs | apart => rfl
    | equal _ rests => cases none.symm.trans rests

def Upto (st : Store) (active : List (Value × Value)) (v w : Value) : Prop :=
  ∃ R : Value → Value → Prop, (∀ a b, R a b → (a, b) ∈ active ∨ Alike st R a b) ∧ R v w

theorem Upto.unfold (h : st.Upto active v w) : (v, w) ∈ active ∨ Alike st (st.Upto active) v w := by
  obtain ⟨R, closed, related⟩ := h
  exact (closed v w related).imp_right fun alike => alike.mono fun a b inside => ⟨R, closed, inside⟩

theorem Upto.discharge (h : Alike st (st.Upto ((v, w) :: active)) v w) : st.Upto active v w := by
  refine ⟨st.Upto ((v, w) :: active), fun a b related => ?_, fun a b => (a, b) = (v, w), ?_, rfl⟩
  · cases related.unfold with
    | inr alike => exact .inr alike
    | inl held =>
      cases List.mem_cons.1 held with
      | inr older => exact .inl older
      | inl newest =>
        cases newest
        exact .inr h
  · intro a b newest
    exact .inl (List.mem_cons.2 (.inl newest))

theorem comparesSound {b : Bool} (h : Compares st active v w b) (yes : b = true) :
    st.Upto active v w := by
  induction h with
  | same v => exact ⟨Eq, fun a b same => .inr (same ▸ .same a), rfl⟩
  | assumed _ held => exact ⟨fun a b => (a, b) ∈ _, fun a b inside => .inl inside, held⟩
  | equal _ rests _ ih => exact .discharge (partsAlike rests fun p member => ih p member rfl)
  | differs | apart => cases yes

theorem comparesComplete {R : Value → Value → Prop} (bisimulation : st.Bisimulation R) {b : Bool}
    (h : Compares st active v w b) (related : R v w) : b = true := by
  induction h with
  | same | assumed | equal => rfl
  | differs fresh rests _ _ _ ih =>
    obtain ⟨ps, rests', inner⟩ := alikeParts (bisimulation _ _ related) fresh.1
    cases rests.symm.trans rests'
    exact ih (inner _ (by simp))
  | apart fresh none =>
    obtain ⟨ps, rests, _⟩ := alikeParts (bisimulation _ _ related) fresh.1
    cases none.symm.trans rests

theorem equalWithinEqual {n : Nat} {b : Bool} (h : st.equalWithin n [] v w = some b) : st.equal v w = b :=
  comparesOnce (equalCompares st v w) (equalWithinCompares n h)

theorem equalBisimulation (st : Store) : st.Bisimulation fun v w => st.equal v w = true := by
  intro v w same
  obtain ⟨R, closed, related⟩ := comparesSound (equalCompares st v w) same
  have bisimulation : st.Bisimulation R := fun a b inside => (closed a b inside).resolve_left (by simp)
  exact (bisimulation v w related).mono fun a b inside =>
    comparesComplete bisimulation (equalCompares st a b) inside

theorem bisimulationEqual {R : Value → Value → Prop} (bisimulation : st.Bisimulation R)
    (related : R v w) : st.equal v w = true :=
  comparesComplete bisimulation (equalCompares st v w) related

end

/-- Every comparison ends, and the values it finds equal are those related by the largest bisimulation,
which is an equivalence. -/
theorem equalIsBisimilarity (st : Store) :
    (∀ v w b, Compares st [] v w b ↔ st.equal v w = b) ∧
      IsGreatest {R | st.Bisimulation R} (fun v w => st.equal v w = true) ∧
      Equivalence fun v w => st.equal v w = true := by
  refine ⟨fun v w b => ⟨comparesOnce (equalCompares st v w), ?_⟩, ⟨equalBisimulation st, ?_⟩,
    equalSelf st, fun same => ?_, fun same same' => ?_⟩
  · intro result
    exact result ▸ equalCompares st v w
  · intro R bisimulation v w related
    exact bisimulationEqual bisimulation related
  · have flipped : st.Bisimulation (flip fun v w => st.equal v w = true) :=
      fun a b related => (equalBisimulation st b a related).symm
    exact bisimulationEqual flipped same
  · have composed : st.Bisimulation (Relation.Comp (fun v w => st.equal v w = true)
        fun v w => st.equal v w = true) := by
      intro a c ⟨b, first, second⟩
      exact .comp (equalSelf st) (equalBisimulation st a b first) (equalBisimulation st b c second)
    exact bisimulationEqual composed ⟨_, same, same'⟩

-- A circle of one array and a circle of two, which unroll at different rates.
example : (Store.mk #[.array [.ref 0], .array [.ref 2], .array [.ref 1]] #[] #[]).equal
    (.ref 0) (.ref 1) = true := by decide

end Baby.Store
