import Mathlib.Data.List.Forall2
import Baby.Store.Inspect

/-! Printing under a limit, one step at a time: a value is printed from the texts of its parts, or there is no
text. A text that is found under one limit is found under every higher one. -/
namespace Baby

/-! Lists of options -/

section
variable {α β : Type} {f g : α → Option β} {l : List α} {ys : List β}

theorem mapMSome : l.mapM f = some ys ↔ List.Forall₂ (fun x y => f x = some y) l ys := by
  induction l generalizing ys with
  | nil => cases ys <;> simp
  | cons x l ih =>
    rw [List.mapM_cons, List.forall₂_cons_left_iff]
    simp only [Option.bind_eq_bind, Option.bind_eq_some_iff, Option.pure_def, Option.some.injEq, ih]
    constructor
    · rintro ⟨y, here, ys', rest, rfl⟩
      exact ⟨y, ys', here, rest, rfl⟩
    · rintro ⟨y, ys', here, rest, rfl⟩
      exact ⟨y, here, ys', rest, rfl⟩

theorem mapMMono (more : ∀ x y, f x = some y → g x = some y) (h : l.mapM f = some ys) : l.mapM g = some ys :=
  mapMSome.2 ((mapMSome.1 h).imp more)

theorem mapMIsSome : (l.mapM f).isSome = l.all fun x => (f x).isSome := by
  induction l with
  | nil => rfl
  | cons x l ih =>
    rw [List.mapM_cons, List.all_cons, ← ih]
    cases f x with
    | none => rfl
    | some y => cases l.mapM f <;> rfl

end

/-! Parts -/

def Tag.isContainer : Tag → Bool
  | array | hash => true
  | _ => false

def Object.inside : Object → List Value
  | .array xs => xs
  | .hash d => d.values.flatMap fun e => [e.key, e.value]
  | .returned v => [v]
  | .integer _ | .string _ | .closure .. | .error _ => []

def rows : List String → List String
  | key :: value :: rest => (key ++ ": " ++ value) :: rows rest
  | _ => []

def Object.text : Object → List String → String
  | .integer n, _ => toString n.toInt
  | .string s, _ => s
  | .array _, texts => "[" ++ commas texts ++ "]"
  | .hash _, texts => "\x7b" ++ commas (rows texts) ++ "\x7d"
  | .closure params body _, _ => "fun(" ++ commas params ++ ") \x7b " ++ body.render ++ " \x7d"
  | .returned _, texts => texts.headD ""
  | .error f, _ => "ERROR: " ++ f.message

def Object.bodyHeight : Object → Nat
  | .closure _ body _ => body.height
  | _ => 0

theorem rowsEntries (print : Value → Option String) (es : List Entry) :
    (es.mapM fun e => do
        let key ← print e.key
        let value ← print e.value
        return key ++ ": " ++ value) =
      ((es.flatMap fun e => [e.key, e.value]).mapM print).map rows := by
  induction es with
  | nil => rfl
  | cons e es ih =>
    rw [List.mapM_cons, ih, List.flatMap_cons]
    simp only [List.cons_append, List.nil_append, List.mapM_cons]
    cases print e.key with
    | none => rfl
    | some key =>
      cases print e.value with
      | none => rfl
      | some value => cases (es.flatMap fun e => [e.key, e.value]).mapM print <;> rfl

namespace Store

def inside (st : Store) (v : Value) : List Value := ((st.object? v).map Object.inside).getD []

def text (st : Store) (v : Value) (texts : List String) : String :=
  match v with
  | .null => "null"
  | .boolean b => if b then "true" else "false"
  | .builtin b => "builtin function " ++ b.name
  | .ref a => (st.objects[a]?.map (Object.text · texts)).getD ""

def isContainer (st : Store) (v : Value) : Bool := (st.tag v).isContainer

def short (st : Store) (v : Value) : String := if st.tag v = .array then "[...]" else "\x7b...\x7d"

def bodyHeight (st : Store) (v : Value) : Nat := ((st.object? v).map Object.bodyHeight).getD 0

section
variable {st : Store}

theorem inspectObject (n : Nat) (path : List Value) {a : Addr} {o : Object} (found : st.objects[a]? = some o) :
    st.inspectWithin (n + 1) path (.ref a) =
      if o.tag.isContainer = true ∧ .ref a ∈ path then some (st.short (.ref a))
      else if o.bodyHeight ≤ n then
        (o.inside.mapM (st.inspectWithin n (if o.tag.isContainer = true then .ref a :: path else path))).map o.text
      else none := by
  have same : st.tag (.ref a) = o.tag := by simp [tag, found]
  unfold inspectWithin short
  dsimp only
  rw [found, same]
  cases o with
  | array xs =>
    simp only [Object.tag, Tag.isContainer, true_and, if_true, Object.inside, Object.bodyHeight, Nat.zero_le]
    rw [Option.map_eq_bind]
    rfl
  | hash d =>
    simp only [Object.tag, Tag.isContainer, true_and, if_true, Object.inside, Object.bodyHeight, Nat.zero_le,
      rowsEntries]
    simp only [Option.map_eq_bind, Option.bind_eq_bind, Option.bind_assoc]
    rfl
  | returned w =>
    simp only [Object.tag, Tag.isContainer, Object.inside, Object.bodyHeight, Nat.zero_le, if_true, List.mapM_cons,
      List.mapM_nil, Bool.false_eq_true, false_and, if_false]
    cases st.inspectWithin n path w <;> rfl
  | _ => rfl

theorem inspectStep (n : Nat) (path : List Value) (v : Value) :
    st.inspectWithin (n + 1) path v =
      if st.isContainer v = true ∧ v ∈ path then some (st.short v)
      else if st.bodyHeight v ≤ n then
        ((st.inside v).mapM (st.inspectWithin n (if st.isContainer v = true then v :: path else path))).map (st.text v)
      else none := by
  cases v with
  | ref a =>
    cases found : st.objects[a]? with
    | none =>
      have outside : st.isContainer (.ref a) = false := by simp [isContainer, tag, found, Tag.isContainer]
      have leaf : st.inside (.ref a) = [] ∧ st.bodyHeight (.ref a) = 0 := by
        simp [inside, bodyHeight, object?, found]
      rw [leaf.1, leaf.2, outside]
      unfold inspectWithin text
      dsimp only
      rw [found]
      rfl
    | some o =>
      have container : st.isContainer (.ref a) = o.tag.isContainer := by simp [isContainer, tag, found]
      have parts : st.inside (.ref a) = o.inside := by simp [inside, object?, found]
      have tall : st.bodyHeight (.ref a) = o.bodyHeight := by simp [bodyHeight, object?, found]
      have around : st.text (.ref a) = o.text := by
        funext texts
        show (st.objects[a]?.map (Object.text · texts)).getD "" = o.text texts
        rw [found]
        rfl
      rw [inspectObject n path found, container, parts, tall, around]
  | _ => rfl

theorem inspectWithinMore {n m : Nat} (more : n ≤ m) {path : List Value} {v : Value} {text : String}
    (h : st.inspectWithin n path v = some text) : st.inspectWithin m path v = some text := by
  induction n generalizing m path v text with
  | zero => cases h
  | succ n ih =>
    cases m with
    | zero => cases more
    | succ m =>
      have more := Nat.le_of_succ_le_succ more
      rw [inspectStep] at h ⊢
      split at h
      · next cut =>
        rw [if_pos cut]
        exact h
      · next whole =>
        rw [if_neg whole]
        split at h
        · next fits =>
          rw [if_pos (Nat.le_trans fits more)]
          obtain ⟨texts, found, rfl⟩ := Option.map_eq_some_iff.1 h
          rw [mapMMono (fun w text => ih more) found]
          rfl
        · cases h

end
end Store
end Baby
