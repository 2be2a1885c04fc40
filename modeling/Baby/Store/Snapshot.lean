import Baby.Store.Inspect

/-! Pictures of what can be reached from a scope, with scopes and objects numbered in the order of a
depth-first walk. -/
namespace Baby

inductive Place where
  | scope (id : ScopeId)
  | value (value : Value)
  deriving DecidableEq, Repr

namespace Store

def neighbours (st : Store) : Place → List Place
  | .scope id =>
      (st.scope id).outer.toList.map .scope ++ (st.sortedNames id).map fun e => .value e.2
  | .value v =>
      match st.object? v with
      | some (.array xs) => xs.map .value
      | some (.hash d) => d.values.map fun e => .value e.value
      | some (.closure _ _ home) => [.scope home]
      | _ => []

def walkWithin (st : Store) : Nat → List Place → Place → List Place
  | 0, seen, _ => seen
  | n + 1, seen, p =>
      if p ∈ seen then seen else (st.neighbours p).foldl (st.walkWithin n) (seen ++ [p])

/-- Every place that can be reached, each once, in the order of the first meeting. The places are the
scopes, the objects, and the values that need no object. -/
def walk (st : Store) (p : Place) : List Place :=
  st.walkWithin (st.scopes.size + st.objects.size + Builtin.all.length + 4) [] p

end Store

namespace Snapshot

structure ScopeRow where
  text : String
  outer : Option Nat
  names : List (String × Nat)
  deriving DecidableEq, Repr

structure HashRow where
  key : HashKey
  text : String
  value : Nat
  deriving DecidableEq, Repr

inductive ObjectRow where
  | integer (value : Int64)
  | string (value : String)
  | boolean (value : Bool)
  | null
  | array (elements : List Nat)
  | hash (rows : List HashRow)
  | function (text : String) (scope : Nat)
  | builtin (builtin : Builtin)
  | marker (tag : Tag) (text : String)
  deriving DecidableEq, Repr

end Snapshot

structure Snapshot where
  scopes : List Snapshot.ScopeRow
  objects : List Snapshot.ObjectRow
  deriving DecidableEq, Repr

namespace Store
open Snapshot

def snapshot (st : Store) (root : ScopeId) : Snapshot :=
  let places := st.walk (.scope root)
  let scopes := places.filterMap fun | .scope id => some id | .value _ => none
  let values := places.filterMap fun | .scope _ => none | .value v => some v
  let scopeNo (id : ScopeId) := scopes.idxOf id
  let valueNo (v : Value) := values.idxOf v
  { scopes := scopes.map fun id =>
      { text := st.describeScope id
        outer := (st.scope id).outer.map scopeNo
        names := (st.sortedNames id).map fun e => (e.1, valueNo e.2) }
    objects := values.map fun v =>
      match v with
      | .null => .null
      | .boolean b => .boolean b
      | .builtin b => .builtin b
      | .ref _ =>
          match st.object? v with
          | some (.integer n) => .integer n
          | some (.string s) => .string s
          | some (.array xs) => .array (xs.map valueNo)
          | some (.hash d) =>
              .hash (d.entries.map fun e => ⟨e.1, st.inspect e.2.key, valueNo e.2.value⟩)
          | some (.closure _ _ home) => .function (st.inspect v) (scopeNo home)
          | _ => .marker (st.tag v) (st.inspect v) }

end Store
end Baby
