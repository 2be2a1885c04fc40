import Baby.Store.Equality

/-! Answers that are computed from a store without changing it: an object that is there already, a
new object, or a fault. There is none where computing it would nest too deep. -/
namespace Baby

inductive Answer where
  | old (value : Value)
  | fresh (object : Object)
  | tooDeep
  deriving Repr

abbrev Reply := Except Fault Answer

namespace Reply

def truth (b : Bool) : Reply := .ok (.old (.boolean b))

def truth? : Option Bool → Reply
  | some b => truth b
  | none => .ok .tooDeep

def number (n : Int) : Reply := .ok (.fresh (.number n))

end Reply

/-- Arithmetic is exact, and its result is wrapped. -/
def integerReply (op : Op) (left right : Int64) : Reply :=
  let a := left.toInt
  let b := right.toInt
  match op with
  | .add => .number (a + b)
  | .sub => .number (a - b)
  | .mul => .number (a * b)
  | .div => if b = 0 then .error (.divisionByZero left) else .number (truncatedQuotient a b)
  | .lt => .truth (a < b)
  | .gt => .truth (b < a)
  | .le => .truth (a ≤ b)
  | .ge => .truth (b ≤ a)
  | op => .error (.badOperands .integer op .integer)

namespace Store

def operandsReply (st : Store) (op : Op) (v w : Value) : Reply :=
  match st.object? v, st.object? w with
  | some (.integer a), some (.integer b) => integerReply op a b
  | some (.string s), some (.string t) =>
      if op = .add then .ok (.fresh (.string (s ++ t))) else .error (.badOperands .string op .string)
  | _, _ =>
      if st.tag v ≠ st.tag w then .error (.mixedOperands (st.tag v) op (st.tag w))
      else .error (.badOperands (st.tag v) op (st.tag w))

def binaryReply (st : Store) (depth : Nat) (op : Op) (v w : Value) : Reply :=
  match op with
  | .identical => .truth (v = w)
  | .notIdentical => .truth (v ≠ w)
  | .equal => .truth? (st.equalWithin depth [] v w)
  | .notEqual => .truth? ((st.equalWithin depth [] v w).map not)
  | .and => .truth (v = .boolean true && w = .boolean true)
  | .or => .truth (v = .boolean true || w = .boolean true)
  | op => st.operandsReply op v w

def unaryReply (st : Store) (op : Op) (v : Value) : Reply :=
  match op with
  | .not =>
      match v with
      | .null | .boolean _ => .truth (!v.isTruthy)
      | _ => .truth false
  | .sub =>
      match st.object? v with
      | some (.integer n) => .number (-n.toInt)
      | _ => .error (.badOperand .sub (st.tag v))
  | op => .error (.badOperand op (st.tag v))

def nameReply (st : Store) (id : ScopeId) (name : String) : Reply :=
  match st.lookup id name with
  | some v => .ok (.old v)
  | none =>
      match Builtin.ofName? name with
      | some b => .ok (.old (.builtin b))
      | none => .error (.unboundName name)

def place? (n : Int64) (length : Nat) : Option Nat :=
  if 0 ≤ n.toInt && n.toInt < length then some n.toInt.toNat else none

def indexReply (st : Store) (target place : Value) : Reply :=
  match st.object? target, st.object? place with
  | some (.array xs), some (.integer n) =>
      .ok (.old (((place? n xs.length).bind (xs[·]?)).getD .null))
  | _, _ => .error (.notIndexable (st.tag target) (st.tag place))

def attributeReply (st : Store) (target key : Value) : Reply :=
  match st.object? target with
  | some (.hash d) =>
      match st.hashKey? key with
      | some k => .ok (.old (((d.get? k).map Entry.value).getD .null))
      | none => .error (.unhashable (st.tag key))
  | _ => .error (.noAttributes (st.tag target))

end Store
end Baby
