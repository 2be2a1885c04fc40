import Baby.Dict
import Baby.Fault
import Baby.Integer
import Baby.Text.Fnv
import Baby.Tree

/-! The store: objects that names, elements and entries refer to, and the scopes that hold names.
Null, the booleans and the built-ins are each one object and need no place in the store; two values
are the same object exactly if they are equal. -/
namespace Baby

abbrev Addr := Nat

abbrev ScopeId := Nat

inductive Value where
  | null
  | boolean (value : Bool)
  | builtin (builtin : Builtin)
  | ref (addr : Addr)
  deriving DecidableEq, Repr, Inhabited

namespace Value

def isTruthy : Value → Bool
  | null | boolean false => false
  | _ => true

end Value

/-- Entries of a hash are found by the type and the digest of their key alone. -/
structure HashKey where
  tag : Tag
  digest : UInt64
  deriving DecidableEq, Repr

structure Entry where
  key : Value
  value : Value
  deriving DecidableEq, Repr

inductive Object where
  | integer (value : Int64)
  | string (value : String)
  | array (elements : List Value)
  | hash (entries : Dict HashKey Entry)
  | closure (params : List String) (body : Tree) (home : ScopeId)
  | returned (value : Value)
  | error (fault : Fault)
  deriving Repr

namespace Object

def tag : Object → Tag
  | integer _ => .integer
  | string _ => .string
  | array _ => .array
  | hash _ => .hash
  | closure .. => .function
  | returned _ => .returned
  | error _ => .error

def number (n : Int) : Object := integer (Int64.ofInt (wrap n))

end Object

structure Scope where
  names : Dict String Value
  outer : Option ScopeId
  deriving Repr, Inhabited

structure Printed where
  value : Value
  text : String
  deriving DecidableEq, Repr

structure Store where
  objects : Array Object
  scopes : Array Scope
  printed : Array Printed

namespace Store

def empty : Store := ⟨#[], #[], #[]⟩

instance : Inhabited Store := ⟨empty⟩

/-! Objects -/

def object? (st : Store) : Value → Option Object
  | .ref a => st.objects[a]?
  | _ => none

def tag (st : Store) : Value → Tag
  | .null => .null
  | .boolean _ => .boolean
  | .builtin _ => .builtin
  | .ref a => (st.objects[a]?.map Object.tag).getD .null

def alloc (st : Store) (o : Object) : Value × Store :=
  (.ref st.objects.size, { st with objects := st.objects.push o })

def write (st : Store) (a : Addr) (o : Object) : Store :=
  { st with objects := st.objects.setIfInBounds a o }

def copy (st : Store) (v : Value) : Value × Store :=
  match st.object? v with
  | some o => if o.tag.isMutable then st.alloc o else (v, st)
  | none => (v, st)

def overwrite (st : Store) (v w : Value) : Store :=
  match v, st.object? v, st.object? w with
  | .ref a, some old, some new => if old.tag = new.tag && old.tag.isMutable then st.write a new else st
  | _, _, _ => st

def hashKey? (st : Store) : Value → Option HashKey
  | .boolean b => some ⟨.boolean, if b then 1 else 0⟩
  | .ref a =>
      match st.objects[a]? with
      | some (.integer n) => some ⟨.integer, n.toUInt64⟩
      | some (.string s) => some ⟨.string, Text.Fnv.digest s⟩
      | _ => none
  | _ => none

theorem objectAlloc (st : Store) (o : Object) : (st.alloc o).2.object? (st.alloc o).1 = some o := by
  simp [alloc, object?]

theorem objectAllocOld (st : Store) (o : Object) {a : Addr} (h : a < st.objects.size) :
    (st.alloc o).2.object? (.ref a) = st.object? (.ref a) := by
  simp [alloc, object?, Array.getElem?_push, Nat.ne_of_lt h]

theorem objectWriteOther (st : Store) {a b : Addr} (o : Object) (h : a ≠ b) :
    (st.write a o).object? (.ref b) = st.object? (.ref b) := by
  simp [write, object?, h]

/-! Scopes -/

def scope (st : Store) (id : ScopeId) : Scope := st.scopes[id]?.getD default

def openScope (st : Store) (outer : Option ScopeId) : ScopeId × Store :=
  (st.scopes.size, { st with scopes := st.scopes.push ⟨.empty, outer⟩ })

def bind (st : Store) (id : ScopeId) (name : String) (v : Value) : Store :=
  { st with scopes := st.scopes.modify id fun s => { s with names := s.names.put name v } }

def bindAll (st : Store) (id : ScopeId) : List String → List Value → Store
  | name :: names, v :: vs => (st.bind id name v).bindAll id names vs
  | _, _ => st

def chainWithin (st : Store) : Nat → ScopeId → List ScopeId
  | 0, _ => []
  | n + 1, id => id :: ((st.scope id).outer.map (st.chainWithin n)).getD []

/-- The scope and those around it, nearest first. A scope is opened after the one around it, so no
chain is longer than there are scopes. -/
def chain (st : Store) (id : ScopeId) : List ScopeId := st.chainWithin st.scopes.size id

def resolve (st : Store) (id : ScopeId) (name : String) : Option ScopeId :=
  (st.chain id).find? fun s => (st.scope s).names.contains name

def lookup (st : Store) (id : ScopeId) (name : String) : Option Value := do
  (st.scope (← st.resolve id name)).names.get? name

/-- Writes a value to a name. A new name gets a copy in the current scope. A name that is bound keeps
its type: the object it holds takes the new contents, or, if it cannot be changed, gives way to the
value in the scope that has the name. -/
def assign (st : Store) (id : ScopeId) (name : String) (v : Value) : Option Fault × Store :=
  match st.resolve id name with
  | none =>
      let (v, st) := st.copy v
      (none, st.bind id name v)
  | some owner =>
      match (st.scope owner).names.get? name with
      | none => (none, st)
      | some held =>
          if st.tag held ≠ st.tag v then (some (.wrongType name (st.tag v) (st.tag held)), st)
          else if (st.tag held).isMutable then (none, st.overwrite held v)
          else (none, st.bind owner name v)

/-! Output -/

def printedText (st : Store) : String :=
  String.join (st.printed.toList.map fun p => p.text ++ "\n")

def clearPrinted (st : Store) : Store := { st with printed := #[] }

end Store
end Baby
