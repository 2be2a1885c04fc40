import Baby.Eval.Reply

/-! The built-in functions on texts, arrays and hashes. They change nothing. -/
namespace Baby

namespace Builtin

def arity? : Builtin → Option Arity
  | len | head | tail | rest | isEmpty | doWhile => some (.exactly 1)
  | get => some (.exactly 2)
  | insert => some (.exactly 3)
  | append => some (.atLeast 2)
  | print => none

end Builtin

namespace Store

def character (cs : Option Char) : Answer :=
  match cs with
  | some c => .fresh (.string (String.singleton c))
  | none => .old .null

def lengthReply (st : Store) (v : Value) : Reply :=
  match st.object? v with
  | some (.string s) => .number s.length
  | some (.array xs) => .number xs.length
  | _ => .error (.builtinArgument .len (st.tag v))

def headReply (st : Store) (v : Value) : Reply :=
  match st.object? v with
  | some (.array xs) => .ok (.old (xs.head?.getD .null))
  | some (.string s) => .ok (character s.toList.head?)
  | _ => .error (.builtinArgument .head (st.tag v))

def tailReply (st : Store) (v : Value) : Reply :=
  match st.object? v with
  | some (.array xs) => .ok (.old (xs.getLast?.getD .null))
  | some (.string s) => .ok (character s.toList.getLast?)
  | _ => .error (.builtinArgument .tail (st.tag v))

def restReply (st : Store) (v : Value) : Reply :=
  match st.object? v with
  | some (.array []) => .ok (.old .null)
  | some (.array (_ :: xs)) => .ok (.fresh (.array xs))
  | some (.string s) =>
      match s.toList with
      | [] => .ok (.old .null)
      | _ :: cs => .ok (.fresh (.string (String.ofList cs)))
  | _ => .error (.builtinArgument .rest (st.tag v))

def elementAt (st : Store) (b : Builtin) (v place : Value) : Except Fault (List Value × Nat) :=
  match st.object? v with
  | some (.array xs) =>
      match st.object? place with
      | some (.integer n) =>
          match place? n xs.length with
          | some i => .ok (xs, i)
          | none => .error (.placeRange b n xs.length)
      | _ => .error (.placeType b (st.tag place))
  | _ => .error (.builtinArgument b (st.tag v))

def getReply (st : Store) (v place : Value) : Reply := do
  let (xs, i) ← st.elementAt .get v place
  return .old (xs[i]?.getD .null)

def insertReply (st : Store) (v place new : Value) : Reply := do
  let (xs, i) ← st.elementAt .insert v place
  return .fresh (.array (xs.set i new))

def appendReply (st : Store) (v : Value) (more : List Value) : Reply :=
  match st.object? v with
  | some (.array xs) => .ok (.fresh (.array (xs ++ more)))
  | _ => .error (.builtinArgument .append (st.tag v))

def emptyReply (st : Store) (v : Value) : Reply :=
  match st.object? v with
  | some (.string s) => .truth s.isEmpty
  | some (.array xs) => .truth xs.isEmpty
  | some (.hash d) => .truth d.entries.isEmpty
  | _ => .error (.builtinArgument .isEmpty (st.tag v))

def libraryReply (st : Store) : Builtin → List Value → Reply
  | .len, [v] => st.lengthReply v
  | .head, [v] => st.headReply v
  | .tail, [v] => st.tailReply v
  | .rest, [v] => st.restReply v
  | .get, [v, place] => st.getReply v place
  | .insert, [v, place, new] => st.insertReply v place new
  | .append, v :: w :: more => st.appendReply v (w :: more)
  | .isEmpty, [v] => st.emptyReply v
  | b, args => .error (.builtinArity b args.length (b.arity?.getD (.atLeast 0)))

end Store
end Baby
