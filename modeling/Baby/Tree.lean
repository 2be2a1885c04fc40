import Baby.Op

/-! Trees of programs, and their canonical text with every operator in parentheses. -/
namespace Baby

def commas (items : List String) : String := ", ".intercalate items

/-- Every tree has a line: that of its operator where it continues another tree, as a binary, a call, an index
and a dot do, and otherwise the one that it starts on. `missing` stands for a part that is not there, and
`unknown` for a form that only an embedding program uses. -/
inductive Tree where
  | program (body : List Tree) (line : Nat)
  | block (body : List Tree) (line : Nat)
  | define (name : String) (op : Op) (value : Tree) (line : Nat)
  | assign (name : String) (op : Op) (value : Tree) (line : Nat)
  | ret (value : Tree) (line : Nat)
  | statement (value : Tree) (line : Nat)
  | ident (name : String) (line : Nat)
  | number (value : Int) (line : Nat)
  | string (value : String) (line : Nat)
  | boolean (value : Bool) (line : Nat)
  | null (line : Nat)
  | array (elements : List Tree) (line : Nat)
  | hash (pairs : List (Tree × Tree)) (line : Nat)
  | function (params : List String) (body : Tree) (line : Nat)
  | unary (op : Op) (operand : Tree) (line : Nat)
  | binary (op : Op) (left right : Tree) (line : Nat)
  | cond (test yes no : Tree) (line : Nat)
  | loop (test body : Tree) (line : Nat)
  | call (callee : Tree) (args : List Tree) (line : Nat)
  | index (target place : Tree) (line : Nat)
  | dot (target key : Tree) (line : Nat)
  | missing
  | unknown (tag : String)
  deriving Inhabited, Repr

namespace Tree

mutual

def render : Tree → String
  | program body _ | block body _ => String.join (renderEach body)
  | define name op value _ => "let " ++ name ++ " " ++ op.text ++ " " ++ render value ++ ";"
  | assign name op value _ => name ++ " " ++ op.text ++ " " ++ render value ++ ";"
  | ret value _ => "return " ++ render value ++ ";"
  | statement value _ => render value
  | ident name _ => name
  | number n _ => toString n
  | string s _ => "\"" ++ s ++ "\""
  | boolean b _ => if b then "true" else "false"
  | null _ => "null"
  | array elements _ => "[" ++ commas (renderEach elements) ++ "]"
  | hash pairs _ => "\x7b" ++ commas (renderPairs pairs) ++ "\x7d"
  | function params body _ => "fun(" ++ commas params ++ ") " ++ render body
  | unary op operand _ => "(" ++ op.text ++ render operand ++ ")"
  | binary op left right _ => "(" ++ render left ++ " " ++ op.text ++ " " ++ render right ++ ")"
  | cond test yes .missing _ => "if" ++ render test ++ " " ++ render yes
  | cond test yes no _ => "if" ++ render test ++ " " ++ render yes ++ " else " ++ render no
  | loop test body _ => "while" ++ render test ++ " " ++ render body
  | call callee args _ => render callee ++ "(" ++ commas (renderEach args) ++ ")"
  | index target place _ => "(" ++ render target ++ "[" ++ render place ++ "])"
  | dot target key _ => "(" ++ render target ++ "." ++ render key ++ ")"
  | missing => ""
  | unknown tag => "<node " ++ tag ++ ">"

def renderEach : List Tree → List String
  | [] => []
  | t :: ts => render t :: renderEach ts

def renderPairs : List (Tree × Tree) → List String
  | [] => []
  | (k, v) :: ps => (render k ++ ": " ++ render v) :: renderPairs ps

end

mutual

def height : Tree → Nat
  | program body _ | block body _ | array body _ => heightEach body + 1
  | define _ _ value _ | assign _ _ value _ | ret value _ | statement value _ => height value + 1
  | ident .. | number .. | string .. | boolean .. | null _ | unknown _ => 1
  | hash pairs _ => heightPairs pairs + 1
  | function _ body _ => height body + 1
  | unary _ operand _ => height operand + 1
  | binary _ left right _ => max (height left) (height right) + 1
  | cond test yes no _ => max (height test) (max (height yes) (height no)) + 1
  | loop test body _ => max (height test) (height body) + 1
  | call callee args _ => max (height callee) (heightEach args) + 1
  | index target place _ => max (height target) (height place) + 1
  | dot target key _ => max (height target) (height key) + 1
  | missing => 0

def heightEach : List Tree → Nat
  | [] => 0
  | t :: ts => max (height t) (heightEach ts)

def heightPairs : List (Tree × Tree) → Nat
  | [] => 0
  | (k, v) :: ps => max (max (height k) (height v)) (heightPairs ps)

end

end Tree
end Baby
