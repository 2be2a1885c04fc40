import Baby.Builtin
import Baby.Op

/-! The types of values, and the faults that stop a program. -/
namespace Baby

inductive Tag where
  | integer | boolean | string | null | array | hash | function | builtin | returned | error
  deriving DecidableEq, Repr

namespace Tag

def name : Tag → String
  | integer => "INTEGER" | boolean => "BOOLEAN" | string => "STRING" | null => "NULL"
  | array => "ARRAY" | hash => "HASH" | function => "FUNCTION" | builtin => "BUILTIN"
  | returned => "RETURN_VALUE" | error => "ERROR"

def title : Tag → String
  | integer => "Integer" | boolean => "Boolean" | string => "String" | null => "Null"
  | array => "Array" | hash => "Hash" | function => "Function" | builtin => "BuiltIn"
  | returned => "ReturnValue" | error => "Error"

def isHashable : Tag → Bool
  | integer | boolean | string => true
  | _ => false

def isMutable : Tag → Bool
  | integer | string | array | hash => true
  | _ => false

/-- Errors and returns on their way out, which are not data. -/
def isMarker : Tag → Bool
  | returned | error => true
  | _ => false

end Tag

inductive Arity where
  | exactly (n : Nat)
  | atLeast (n : Nat)
  deriving DecidableEq, Repr

namespace Arity

def text : Arity → String
  | exactly n => toString n
  | atLeast n => toString n ++ " or more"

end Arity

inductive Fault where
  | unboundName (name : String)
  | divisionByZero (dividend : Int64)
  | badOperands (left : Tag) (op : Op) (right : Tag)
  | mixedOperands (left : Tag) (op : Op) (right : Tag)
  | badOperand (op : Op) (operand : Tag)
  | wrongType (name : String) (given held : Tag)
  | unhashable (key : Tag)
  | notCallable (callee : Tag)
  | wrongArity (want got : Nat)
  | notIndexable (target place : Tag)
  | noAttributes (target : Tag)
  | builtinArity (builtin : Builtin) (got : Nat) (want : Arity)
  | builtinArgument (builtin : Builtin) (got : Tag)
  | placeType (builtin : Builtin) (got : Tag)
  | placeRange (builtin : Builtin) (place : Int64) (length : Nat)
  | loopParameters (count : Nat)
  | other (message : String)
  deriving DecidableEq, Repr

def Fault.message : Fault → String
  | unboundName name => "identifier not found: " ++ name
  | divisionByZero n => "division by zero: " ++ toString n.toInt ++ " / 0"
  | badOperands l op r => "unknown operator: " ++ l.name ++ " " ++ op.text ++ " " ++ r.name
  | mixedOperands l op r => "type mismatch: " ++ l.name ++ " " ++ op.text ++ " " ++ r.name
  | badOperand op t => "unknown operator: " ++ op.text ++ t.name
  | wrongType name given held =>
      "type mismatch: cannot assign " ++ given.name ++ " to '" ++ name ++ "' (" ++ held.name ++ ")"
  | unhashable t => "unusable as hash key: " ++ t.name
  | notCallable t => "not callable: " ++ t.name
  | wrongArity want got =>
      "wrong number of arguments: want=" ++ toString want ++ ", got=" ++ toString got
  | notIndexable t i => "index operator not supported: " ++ t.name ++ "[" ++ i.name ++ "]"
  | noAttributes t => "attribute access not supported: " ++ t.name
  | builtinArity b got want =>
      "wrong number of arguments to `" ++ b.name ++ "`: got=" ++ toString got ++ ", want=" ++ want.text
  | builtinArgument b t => "argument to `" ++ b.name ++ "` not supported, got " ++ t.name
  | placeType b t => "index to `" ++ b.name ++ "` must be INTEGER, got " ++ t.name
  | placeRange b i n =>
      "index out of range in `" ++ b.name ++ "`: " ++ toString i.toInt ++ " (length " ++ toString n ++ ")"
  | loopParameters n => "function passed to `doWhile` must take no arguments, takes " ++ toString n
  | other message => message

end Baby
