import Baby.Store
import Baby.Text.Quoted

/-! The printed form of values. An array or hash that is being printed further out is cut short, so
printing ends also for values that contain themselves. -/
namespace Baby.Store

/-- Prints a value, nested at most `n` deep; nothing if it would have to be printed deeper. -/
def inspectWithin (st : Store) : Nat → List Value → Value → Option String
  | 0, _, _ => none
  | n + 1, path, v =>
      match v with
      | .null => some "null"
      | .boolean b => some (if b then "true" else "false")
      | .builtin b => some ("builtin function " ++ b.name)
      | .ref a =>
          match st.objects[a]? with
          | none => some ""
          | some (.integer i) => some (toString i.toInt)
          | some (.string s) => some s
          | some (.array xs) =>
              if v ∈ path then some "[...]"
              else do
                let texts ← xs.mapM (st.inspectWithin n (v :: path))
                return "[" ++ commas texts ++ "]"
          | some (.hash d) =>
              if v ∈ path then some "\x7b...\x7d"
              else do
                let texts ← d.values.mapM fun e => do
                  let key ← st.inspectWithin n (v :: path) e.key
                  let value ← st.inspectWithin n (v :: path) e.value
                  return key ++ ": " ++ value
                return "\x7b" ++ commas texts ++ "\x7d"
          | some (.closure params body _) =>
              if body.height ≤ n then
                some ("fun(" ++ commas params ++ ") \x7b " ++ body.render ++ " \x7d")
              else none
          | some (.returned w) => st.inspectWithin n path w
          | some (.error f) => some ("ERROR: " ++ f.message)

def tallest (st : Store) : Nat :=
  st.objects.foldl (fun height o =>
    match o with
    | .closure _ body _ => max height body.height
    | _ => height) 0

/-- At most every object lies on the path, with as many returns between any two of them, and a body below
them all. -/
def inspectDepth (st : Store) : Nat := (st.objects.size + 1) * (st.objects.size + 1) + st.tallest

def inspect (st : Store) (v : Value) : String := (st.inspectWithin st.inspectDepth [] v).getD ""

def describe (st : Store) (v : Value) : String :=
  (st.tag v).title ++ "(" ++ st.inspect v ++ ")"

def sortedNames (st : Store) (id : ScopeId) : List (String × Value) :=
  (st.scope id).names.entries.mergeSort fun a b => a.1 ≤ b.1

def describeScope (st : Store) (id : ScopeId) : String :=
  "Environment(names=[" ++ commas ((st.sortedNames id).map fun e => Text.quote e.1) ++ "], depth=" ++
    toString ((st.chain id).length - 1) ++ ")"

end Baby.Store
