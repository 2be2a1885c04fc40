import Mathlib.Data.List.Fold
import Mathlib.Data.List.MinMax
import Mathlib.Data.List.Perm.Subperm
import Mathlib.Logic.Relation
import Baby.Proofs.Inspection
import Baby.Proofs.Markers

/-! Printing ends for values that contain themselves in any way. What is printed is an outline of the value:
a tree without a bound, in which arrays and hashes are cut short just below themselves. Where nothing
contains itself, printing is the plain recursion over the parts. -/
namespace Baby

/-! Parts -/

namespace Store

def Contains (st : Store) (v w : Value) : Prop := w ∈ st.inside v

def Wraps (st : Store) (v w : Value) : Prop := st.object? v = some (.returned w)

section
variable {st : Store} {v w : Value}

theorem containerThere (container : st.isContainer v = true) : ∃ a, v = .ref a ∧ a < st.objects.size := by
  cases v with
  | ref a =>
    refine ⟨a, rfl, ?_⟩
    by_contra outside
    simp [isContainer, tag, outside, Tag.isContainer] at container
  | _ => cases container

theorem wrapsThere (wraps : st.Wraps v w) : ∃ a, v = .ref a ∧ a < st.objects.size := by
  cases v with
  | ref a => exact ⟨a, rfl, (Array.getElem?_eq_some_iff.1 wraps).1⟩
  | _ => cases wraps

theorem wrapsContains (wraps : st.Wraps v w) : st.Contains v w := by
  unfold Contains inside
  rw [wraps]
  exact List.mem_singleton.2 rfl

theorem containsCases (contains : st.Contains v w) : st.isContainer v = true ∨ st.Wraps v w := by
  unfold Contains inside at contains
  cases found : st.object? v with
  | none =>
    rw [found] at contains
    cases contains
  | some o =>
    rw [found] at contains
    cases v with
    | ref a =>
      have here : st.objects[a]? = some o := found
      cases o with
      | array | hash => exact .inl (by simp [isContainer, tag, here, Object.tag, Tag.isContainer])
      | returned u =>
        cases List.mem_singleton.1 contains
        exact .inr found
      | _ => cases contains
    | _ => cases found

end
end Store

/-! Outlines -/

inductive Outline where
  | node (v : Value) (cut : Bool) (parts : List Outline)

namespace Outline

def root : Outline → Value
  | node v _ _ => v

mutual

def text (st : Store) : Outline → String
  | node v cut parts => if cut then st.short v else st.text v (textEach st parts)

def textEach (st : Store) : List Outline → List String
  | [] => []
  | o :: os => o.text st :: textEach st os

end

theorem textEachMap (st : Store) (os : List Outline) : textEach st os = os.map (text st) := by
  induction os with
  | nil => rfl
  | cons o os ih => exact congrArg (List.cons _) ih

inductive Unfolds (st : Store) : Outline → Prop where
  | cut {v} (container : st.isContainer v = true) : Unfolds st (node v true [])
  | whole {v parts} (roots : parts.map root = st.inside v) (each : ∀ o ∈ parts, Unfolds st o) :
      Unfolds st (node v false parts)

inductive Occurs : Outline → List Value → Value → Bool → Prop where
  | here {v cut parts} : Occurs (node v cut parts) [] v cut
  | under {v cut parts o trail u cut'} (member : o ∈ parts) (inner : Occurs o trail u cut') :
      Occurs (node v cut parts) (v :: trail) u cut'

def Exact (st : Store) (above : List Value) (o : Outline) : Prop :=
  ∀ trail u cut, o.Occurs trail u cut → st.isContainer u = true → (cut = true ↔ u ∈ above ∨ u ∈ trail)

section
variable {st : Store} {above : List Value} {v : Value} {cut : Bool} {parts : List Outline}

theorem exactNode : (node v cut parts).Exact st above ↔
    (st.isContainer v = true → (cut = true ↔ v ∈ above)) ∧ ∀ o ∈ parts, o.Exact st (v :: above) := by
  constructor
  · intro exact
    constructor
    · intro container
      have here := exact [] v cut .here container
      rw [here]
      simp
    · intro o member trail u cut' inner container
      rw [exact (v :: trail) u cut' (.under member inner) container]
      simp only [List.mem_cons]
      tauto
  · intro ⟨here, each⟩ trail u cut' occurs container
    cases occurs with
    | here =>
      rw [here container]
      simp
    | @under _ _ _ o trail _ _ member inner =>
      rw [each o member trail u cut' inner container]
      simp only [List.mem_cons]
      tauto

theorem sameParts {os os' : List Outline} (roots : os'.map root = os.map root)
    (same : ∀ o ∈ os, ∀ o' ∈ os', o'.root = o.root → o' = o) : os' = os := by
  induction os generalizing os' with
  | nil => exact List.map_eq_nil_iff.1 roots
  | cons o os ih =>
    cases os' with
    | nil => cases roots
    | cons o' os' =>
      obtain ⟨first, rest⟩ := List.cons.inj roots
      have tails := ih rest fun p member p' member' =>
        same p (List.mem_cons_of_mem o member) p' (List.mem_cons_of_mem o' member')
      rw [same o List.mem_cons_self o' List.mem_cons_self first, tails]

theorem Unfolds.unique {o o' : Outline} (h : o.Unfolds st) (h' : o'.Unfolds st) (exact : o.Exact st above)
    (exact' : o'.Exact st above) (roots : o'.root = o.root) : o' = o := by
  induction h generalizing above o' with
  | @cut v container =>
    have held : v ∈ above := ((exactNode.1 exact).1 container).1 rfl
    cases h' with
    | cut => exact congrArg (node · true []) roots
    | @whole v' parts' =>
      have same : v' = v := roots
      subst same
      cases ((exactNode.1 exact').1 container).2 held
  | @whole v parts inside each ih =>
    cases h' with
    | @cut v' container =>
      have same : v' = v := roots
      subst same
      have held : v' ∈ above := ((exactNode.1 exact').1 container).1 rfl
      cases ((exactNode.1 exact).1 container).2 held
    | @whole v' parts' inside' each' =>
      have same : v' = v := roots
      subst same
      have equal : parts' = parts := by
        apply sameParts (inside'.trans inside.symm)
        intro o member o' member' heads
        exact ih o member (each' o' member') ((exactNode.1 exact).2 o member)
          ((exactNode.1 exact').2 o' member') heads
      rw [equal]

end
end Outline

/-! The bound -/

namespace Store
open Relation

/- No return that is printed with the value wraps itself, by way of returns alone. -/
def Ends (st : Store) (v : Value) : Prop := ∀ u, ReflTransGen st.Contains v u → ¬ TransGen st.Wraps u u

/- The containers around what is printed now, and the returns since the last of them. -/
structure Within (st : Store) (path run : List Value) (v : Value) : Prop where
  containers : ∀ u ∈ path, st.isContainer u = true
  distinct : path.Nodup
  returns : ∀ u ∈ run, TransGen st.Wraps u v
  distinct' : run.Nodup
  ends : st.Ends v

section
variable {st : Store} {path run : List Value} {v w : Value}

theorem distinctLength {l : List Value} (distinct : l.Nodup)
    (there : ∀ v ∈ l, ∃ a, v = .ref a ∧ a < st.objects.size) : l.length ≤ st.objects.size := by
  have every : l ⊆ (List.range st.objects.size).map Value.ref := by
    intro v member
    obtain ⟨a, rfl, small⟩ := there v member
    exact List.mem_map.2 ⟨a, List.mem_range.2 small, rfl⟩
  simpa using (distinct.subperm every).length_le

theorem Ends.inside (ends : st.Ends v) (contains : st.Contains v w) : st.Ends w :=
  fun u reached => ends u (.head contains reached)

theorem Within.container (h : st.Within path run v) (container : st.isContainer v = true) (new : v ∉ path)
    (contains : st.Contains v w) : st.Within (v :: path) [] w :=
  ⟨List.forall_mem_cons.2 ⟨container, h.containers⟩, List.nodup_cons.2 ⟨new, h.distinct⟩, List.forall_mem_nil _,
    .nil, h.ends.inside contains⟩

theorem Within.wrapped (h : st.Within path run v) (wraps : st.Wraps v w) : st.Within path (v :: run) w := by
  have new : v ∉ run := fun member => h.ends v .refl (h.returns v member)
  refine ⟨h.containers, h.distinct, ?_, List.nodup_cons.2 ⟨new, h.distinct'⟩, h.ends.inside (wrapsContains wraps)⟩
  exact List.forall_mem_cons.2 ⟨.single wraps, fun u member => (h.returns u member).tail wraps⟩

theorem Within.pathLength (h : st.Within path run v) : path.length ≤ st.objects.size :=
  distinctLength h.distinct fun u member => containerThere (h.containers u member)

theorem Within.runLength (h : st.Within path run v) : run.length ≤ st.objects.size := by
  apply distinctLength h.distinct'
  intro u member
  obtain ⟨_, wraps, _⟩ := TransGen.head'_iff.1 (h.returns u member)
  exact wrapsThere wraps

def remaining (st : Store) (path run : List Value) : Nat :=
  (st.objects.size - path.length) * (st.objects.size + 1) + (st.objects.size - run.length)

theorem remainingContainer (short : (v :: path).length ≤ st.objects.size) :
    st.remaining (v :: path) [] < st.remaining path run := by
  unfold remaining
  have more : st.objects.size - path.length = st.objects.size - (v :: path).length + 1 := by
    simp only [List.length_cons] at short ⊢
    omega
  rw [more, Nat.succ_mul, List.length_nil]
  omega

theorem remainingWrapped (short : (v :: run).length ≤ st.objects.size) :
    st.remaining path (v :: run) < st.remaining path run := by
  unfold remaining
  simp only [List.length_cons] at short ⊢
  omega

theorem eachOutlined {P : Outline → Prop} {vs : List Value} (each : ∀ v ∈ vs, ∃ o, o.root = v ∧ P o) :
    ∃ os : List Outline, os.map Outline.root = vs ∧ ∀ o ∈ os, P o := by
  induction vs with
  | nil => exact ⟨[], rfl, List.forall_mem_nil _⟩
  | cons v vs ih =>
    obtain ⟨⟨o, root, holds⟩, others⟩ := List.forall_mem_cons.1 each
    obtain ⟨os, roots, rest⟩ := ih others
    exact ⟨o :: os, List.cons_eq_cons.2 ⟨root, roots⟩, List.forall_mem_cons.2 ⟨holds, rest⟩⟩

theorem outlineWhole {n : Nat} {path' above : List Value} (out : st.isContainer v = true → v ∉ above)
    (each : ∀ w ∈ st.inside v, ∃ o : Outline, o.root = w ∧ o.Unfolds st ∧ o.Exact st (v :: above) ∧
      st.inspectWithin n path' o.root = some (o.text st)) :
    ∃ o : Outline, o.root = v ∧ o.Unfolds st ∧ o.Exact st above ∧
      ((st.inside v).mapM (st.inspectWithin n path')).map (st.text v) = some (o.text st) := by
  obtain ⟨os, roots, outlined⟩ := eachOutlined each
  refine ⟨.node v false os, rfl, .whole roots fun o member => (outlined o member).1, ?_, ?_⟩
  · rw [Outline.exactNode]
    refine ⟨fun container => ?_, fun o member => (outlined o member).2.1⟩
    simp [out container]
  · have texts : (st.inside v).mapM (st.inspectWithin n path') = some (os.map (Outline.text st)) := by
      rw [← roots, mapMSome, List.forall₂_map_left_iff, List.forall₂_map_right_iff, List.forall₂_same]
      exact fun o member => (outlined o member).2.2
    rw [texts, ← Outline.textEachMap]
    rfl

theorem heightTallest {a : Addr} {o : Object} (found : st.objects[a]? = some o) : o.bodyHeight ≤ st.tallest := by
  have folded : st.tallest = (st.objects.toList.map Object.bodyHeight).foldr max 0 := by
    unfold tallest
    rw [← List.foldl_eq_foldr, List.foldl_map, ← Array.foldl_toList]
    congr 1
    funext height o
    cases o <;> simp [Object.bodyHeight]
  have member : o ∈ st.objects.toList := List.mem_of_getElem? (by rwa [Array.getElem?_toList])
  rw [folded]
  exact List.le_max_of_le' 0 (List.mem_map_of_mem member) (Nat.le_refl _)

theorem bodyHeightTallest (st : Store) (v : Value) : st.bodyHeight v ≤ st.tallest := by
  unfold bodyHeight
  cases found : st.object? v with
  | none => exact Nat.zero_le _
  | some o =>
    cases v with
    | ref a => exact heightTallest found
    | _ => cases found

/- The bound is never met. On the way down the path has each container once, and the returns since the
last of them are different too. -/
theorem outlineWithin (n : Nat) {above : List Value} (h : st.Within path run v)
    (enough : st.remaining path run + st.tallest < n) (same : ∀ u, st.isContainer u = true → (u ∈ path ↔ u ∈ above)) :
    ∃ o : Outline, o.root = v ∧ o.Unfolds st ∧ o.Exact st above ∧
      st.inspectWithin n path v = some (o.text st) := by
  induction n generalizing path run above v with
  | zero => cases enough
  | succ n ih =>
    have fits : st.bodyHeight v ≤ n := Nat.le_trans (st.bodyHeightTallest v) (by omega)
    rw [inspectStep, if_pos fits]
    by_cases container : st.isContainer v = true
    · by_cases held : v ∈ path
      · rw [if_pos ⟨container, held⟩]
        refine ⟨.node v true [], rfl, .cut container, ?_, rfl⟩
        rw [Outline.exactNode]
        exact ⟨fun _ => iff_of_true rfl ((same v container).1 held), List.forall_mem_nil _⟩
      · rw [if_neg fun both => held both.2, if_pos container]
        apply outlineWhole fun _ => mt (same v container).2 held
        intro w contains
        have inner := h.container container held contains
        have less : st.remaining (v :: path) [] < st.remaining path run := remainingContainer inner.pathLength
        have same' (u : Value) (other : st.isContainer u = true) : u ∈ v :: path ↔ u ∈ v :: above := by
          rw [List.mem_cons, List.mem_cons, same u other]
        obtain ⟨o, rfl, outlined⟩ := ih inner (by omega) same'
        exact ⟨o, rfl, outlined⟩
    · rw [if_neg fun both => container both.1, if_neg container]
      apply outlineWhole fun here => absurd here container
      intro w contains
      have inner := h.wrapped ((containsCases contains).resolve_left container)
      have less : st.remaining path (v :: run) < st.remaining path run := remainingWrapped inner.runLength
      have same' (u : Value) (other : st.isContainer u = true) : u ∈ path ↔ u ∈ v :: above := by
        have apart : u ≠ v := fun equal => container (equal ▸ other)
        rw [List.mem_cons, same u other, or_iff_right apart]
      obtain ⟨o, rfl, outlined⟩ := ih inner (by omega) same'
      exact ⟨o, rfl, outlined⟩

end
end Store

/-! What is printed -/

structure Store.Outlines (st : Store) (v : Value) (o : Outline) : Prop where
  root : o.root = v
  unfolds : o.Unfolds st
  cuts : ∀ trail u cut, o.Occurs trail u cut → st.isContainer u = true → (cut = true ↔ u ∈ trail)

namespace Store
open Relation

section
variable {st : Store} {v : Value} {o o' : Outline}

theorem outlinesExact : st.Outlines v o ↔ o.root = v ∧ o.Unfolds st ∧ o.Exact st [] := by
  constructor
  · intro ⟨root, unfolds, cuts⟩
    refine ⟨root, unfolds, fun trail u cut occurs container => ?_⟩
    simpa using cuts trail u cut occurs container
  · intro ⟨root, unfolds, exact⟩
    refine ⟨root, unfolds, fun trail u cut occurs container => ?_⟩
    simpa using exact trail u cut occurs container

theorem Outlines.unique (h : st.Outlines v o) (h' : st.Outlines v o') : o' = o := by
  obtain ⟨root, unfolds, exact⟩ := outlinesExact.1 h
  obtain ⟨root', unfolds', exact'⟩ := outlinesExact.1 h'
  exact unfolds.unique unfolds' exact exact' (root'.trans root.symm)

theorem inspectOutlined (ends : st.Ends v) {n : Nat} (enough : st.inspectDepth ≤ n) :
    ∃ o, st.Outlines v o ∧ st.inspectWithin n [] v = some (o.text st) := by
  have start : st.Within [] [] v := ⟨List.forall_mem_nil _, .nil, List.forall_mem_nil _, .nil, ends⟩
  have less : st.remaining [] [] + st.tallest < n := by
    rw [inspectDepth, Nat.succ_mul] at enough
    simp only [remaining, List.length_nil, Nat.sub_zero]
    omega
  obtain ⟨o, root, unfolds, exact, text⟩ := outlineWithin n start less fun _ _ => Iff.rfl
  exact ⟨o, outlinesExact.2 ⟨root, unfolds, exact⟩, text⟩

theorem Outlines.inspect (h : st.Outlines v o) (ends : st.Ends v) : st.inspect v = o.text st := by
  obtain ⟨o', outlined, text⟩ := inspectOutlined ends (Nat.le_refl _)
  rw [Store.inspect, text, h.unique outlined]
  rfl

theorem Ends.inspectWithin (ends : st.Ends v) {n : Nat} (enough : st.inspectDepth ≤ n) :
    st.inspectWithin n [] v = some (st.inspect v) := by
  obtain ⟨o, outlined, text⟩ := inspectOutlined ends enough
  rw [text, outlined.inspect ends]

theorem Ends.inspectSome (ends : st.Ends v) {n : Nat} {text : String} (h : st.inspectWithin n [] v = some text) :
    st.inspect v = text := by
  have later := inspectWithinMore (Nat.le_max_left n st.inspectDepth) h
  rw [ends.inspectWithin (Nat.le_max_right n _)] at later
  exact Option.some.inj later

end

/-! Plain printing -/

def Acyclic (st : Store) (v : Value) : Prop := ∀ u, ReflTransGen st.Contains v u → ¬ TransGen st.Contains u u

section
variable {st : Store} {v w : Value} {o : Outline}

theorem Acyclic.ends (acyclic : st.Acyclic v) : st.Ends v :=
  fun u reached cycle => acyclic u reached (TransGen.mono (fun _ _ => wrapsContains) u u cycle)

theorem Acyclic.inside (acyclic : st.Acyclic v) (contains : st.Contains v w) : st.Acyclic w :=
  fun u reached => acyclic u (.head contains reached)

end
end Store

section
open Relation
variable {st : Store} {o : Outline} {trail : List Value} {u : Value} {cut : Bool}

theorem Outline.Unfolds.contains {v : Value} {parts : List Outline} (h : (Outline.node v cut parts).Unfolds st)
    (member : o ∈ parts) : st.Contains v o.root ∧ o.Unfolds st := by
  cases h with
  | cut => cases member
  | whole roots each =>
    unfold Store.Contains
    rw [← roots]
    exact ⟨List.mem_map_of_mem member, each o member⟩

theorem Outline.Unfolds.reached (h : o.Unfolds st) (occurs : o.Occurs trail u cut) :
    ReflTransGen st.Contains o.root u ∧ (∀ w ∈ trail, TransGen st.Contains w u) ∧
      (cut = true → st.isContainer u = true) := by
  induction occurs with
  | here =>
    refine ⟨.refl, List.forall_mem_nil _, fun short => ?_⟩
    cases h with
    | cut container => exact container
    | whole => cases short
  | @under v cut parts o trail u cut' member inner ih =>
    obtain ⟨contains, unfolds⟩ := h.contains member
    obtain ⟨reached, trails, container⟩ := ih unfolds
    exact ⟨.head contains reached, List.forall_mem_cons.2 ⟨.head' contains reached, trails⟩, container⟩

theorem Store.Outlines.uncut {v : Value} (h : st.Outlines v o) (acyclic : st.Acyclic v)
    (occurs : o.Occurs trail u cut) : cut = false := by
  obtain ⟨rfl, unfolds, cuts⟩ := h
  obtain ⟨reached, trails, container⟩ := unfolds.reached occurs
  by_contra short
  have short : cut = true := by simpa using short
  have held : u ∈ trail := (cuts trail u cut occurs (container short)).1 short
  exact acyclic u reached (trails u held)

theorem Store.Outlines.part {v : Value} {parts : List Outline} (h : st.Outlines v (.node v cut parts))
    (acyclic : st.Acyclic v) (member : o ∈ parts) : st.Outlines o.root o := by
  obtain ⟨contains, unfolds⟩ := h.unfolds.contains member
  refine ⟨rfl, unfolds, fun trail u cut' occurs container => ?_⟩
  have whole : cut' = false := h.uncut acyclic (.under member occurs)
  obtain ⟨reached, trails, _⟩ := unfolds.reached occurs
  constructor
  · intro short
    cases whole.symm.trans short
  · intro held
    exact absurd (trails u held) (acyclic u (.head contains reached))

theorem Store.Acyclic.inspectParts {v : Value} (acyclic : st.Acyclic v) :
    st.inspect v = st.text v ((st.inside v).map st.inspect) := by
  obtain ⟨⟨v', cut, parts⟩, outlined, _⟩ := Store.inspectOutlined acyclic.ends (Nat.le_refl _)
  have printed := outlined.inspect acyclic.ends
  have same : v' = v := outlined.root
  subst same
  cases outlined.uncut acyclic .here
  cases outlined.unfolds with
  | whole roots each =>
    have texts : Outline.textEach st parts = (st.inside v').map st.inspect := by
      rw [Outline.textEachMap, ← roots, List.map_map]
      apply List.map_congr_left
      intro o member
      have ends := (acyclic.inside (outlined.unfolds.contains member).1).ends
      exact ((outlined.part acyclic member).inspect ends).symm
    rw [← texts]
    exact printed

theorem Outline.Unfolds.plain (h : o.Unfolds st) (whole : ∀ trail u cut, o.Occurs trail u cut → cut = false)
    {f : Value → String}
    (plain : ∀ u, ReflTransGen st.Contains o.root u → f u = st.text u ((st.inside u).map f)) :
    f o.root = o.text st := by
  induction h with
  | cut => cases whole _ _ _ .here
  | @whole v parts roots each ih =>
    have texts : (st.inside v).map f = parts.map (Outline.text st) := by
      rw [← roots, List.map_map]
      apply List.map_congr_left
      intro o member
      have contains := (Outline.Unfolds.whole roots each).contains member
      exact ih o member (fun trail u cut occurs => whole _ _ _ (.under member occurs))
        fun u reached => plain u (.head contains.1 reached)
    have here := plain v .refl
    rw [texts, ← Outline.textEachMap] at here
    exact here

end

theorem Store.Clean.ends {st : Store} (clean : st.Clean) (v : Value) : st.Ends v := by
  intro u _ cycle
  obtain ⟨w, first, _⟩ := Relation.TransGen.head'_iff.1 cycle
  obtain ⟨x, _, last⟩ := Relation.TransGen.tail'_iff.1 cycle
  obtain ⟨a, rfl, _⟩ := Store.wrapsThere last
  obtain ⟨b, rfl, _⟩ := Store.wrapsThere first
  obtain ⟨o, found, plain⟩ := clean.returns a (.ref b) last
  cases found.symm.trans first
  cases plain

/-- Printing ends, on every store in which no return wraps itself by way of returns alone, and sessions come
to no other. What is printed is the text of an outline, and there is one outline only: it unfolds the value
as the store has it, and a container is cut short at just those places where the same container stands
further up. No bound is ever met. Where nothing that is reached contains itself, printing is the one
rendering that takes every value from the renderings of its parts, however they are shared. -/
theorem printingOutlines :
    (∀ (st : Store) (v : Value), st.Ends v →
      ∃ o : Outline, st.Outlines v o ∧ (∀ o', st.Outlines v o' → o' = o) ∧ st.inspect v = o.text st ∧
        ∀ n, st.inspectDepth ≤ n → st.inspectWithin n [] v = some (st.inspect v)) ∧
    (∀ (st : Store) (v : Value), st.Acyclic v →
      (∀ u, Relation.ReflTransGen st.Contains v u → st.inspect u = st.text u ((st.inside u).map st.inspect)) ∧
        ∀ f : Value → String,
          (∀ u, Relation.ReflTransGen st.Contains v u → f u = st.text u ((st.inside u).map f)) →
            f v = st.inspect v) ∧
    ∀ (s : Session), s.Reachable (fun _ => True) → ∀ v, s.store.Ends v := by
  refine ⟨?_, ?_, ?_⟩
  · intro st v ends
    obtain ⟨o, outlined, _⟩ := Store.inspectOutlined ends (Nat.le_refl _)
    exact ⟨o, outlined, fun o' outlined' => outlined.unique outlined', outlined.inspect ends,
      fun n enough => ends.inspectWithin enough⟩
  · intro st v acyclic
    constructor
    · intro u reached
      have inner : st.Acyclic u := fun w further => acyclic w (reached.trans further)
      exact inner.inspectParts
    · intro f plain
      obtain ⟨o, outlined, _⟩ := Store.inspectOutlined acyclic.ends (Nat.le_refl _)
      have text := outlined.inspect acyclic.ends
      have root := outlined.root
      subst root
      have rendered := outlined.unfolds.plain (fun _ _ _ occurs => outlined.uncut acyclic occurs) plain
      exact rendered.trans text.symm
  · intro s h v
    exact (reachableClean h).ends v

def knot : Session := (Session.new.run "let a = [1]; let h = \x7b\"a\": a\x7d; a = [h, h, a];").2

theorem printingOutlinesKnot :
    ∃ o, knot.store.Outlines (.ref 2) o ∧ o.text knot.store = "[\x7ba: [...]\x7d, \x7ba: [...]\x7d, [...]]" := by
  have reached : knot.Reachable fun _ => True := ⟨.standard, .single (.run _ fun _ _ => trivial)⟩
  obtain ⟨o, outlined, _, text, _⟩ := printingOutlines.1 knot.store (.ref 2) (printingOutlines.2.2 knot reached _)
  refine ⟨o, outlined, ?_⟩
  rw [← text]
  rfl

end Baby
