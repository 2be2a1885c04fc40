/-! The built-in functions and their names. -/
namespace Baby

inductive Builtin where
  | len | head | tail | rest | get | insert | append | isEmpty | doWhile | print
  deriving DecidableEq, Repr

namespace Builtin

def name : Builtin → String
  | len => "len" | head => "head" | tail => "tail" | rest => "rest" | get => "get"
  | insert => "insert" | append => "append" | isEmpty => "isEmpty" | doWhile => "doWhile"
  | print => "print"

def all : List Builtin := [len, head, tail, rest, get, insert, append, isEmpty, doWhile, print]

def ofName? (s : String) : Option Builtin := all.find? fun b => b.name = s

end Builtin
end Baby
