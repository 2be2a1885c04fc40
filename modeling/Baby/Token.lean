import Baby.Dict
import Baby.Text.Quoted

/-! Tokens: the words and signs that a source text is made of. -/
namespace Baby

inductive Keyword where
  | kLet | kFun | kIf | kElse | kWhile | kReturn | kTrue | kFalse | kNull
  deriving DecidableEq, Repr

namespace Keyword

def text : Keyword → String
  | kLet => "let" | kFun => "fun" | kIf => "if" | kElse => "else" | kWhile => "while"
  | kReturn => "return" | kTrue => "true" | kFalse => "false" | kNull => "null"

def name : Keyword → String
  | kLet => "LET" | kFun => "FUNCTION" | kIf => "IF" | kElse => "ELSE" | kWhile => "WHILE"
  | kReturn => "RETURN" | kTrue => "TRUE" | kFalse => "FALSE" | kNull => "NULL"

def all : List Keyword := [kLet, kFun, kIf, kElse, kWhile, kReturn, kTrue, kFalse, kNull]

def ofText? (s : String) : Option Keyword := all.find? fun k => k.text = s

end Keyword

inductive Sign where
  | identical | notIdentical | equal | notEqual | eq | ne
  | assignRef | assignVal | assign
  | le | ge | lt | gt
  | plus | minus | asterisk | slash
  | bang | and | or
  | dot | comma | semicolon | colon
  | lparen | rparen | lbrace | rbrace | lbracket | rbracket
  deriving DecidableEq, Repr

namespace Sign

def text : Sign → String
  | identical => "=&=" | notIdentical => "!&=" | equal => "=*=" | notEqual => "!*="
  | eq => "==" | ne => "!="
  | assignRef => "=&" | assignVal => "=*" | assign => "="
  | le => "<=" | ge => ">=" | lt => "<" | gt => ">"
  | plus => "+" | minus => "-" | asterisk => "*" | slash => "/"
  | bang => "!" | and => "&" | or => "|"
  | dot => "." | comma => "," | semicolon => ";" | colon => ":"
  | lparen => "(" | rparen => ")" | lbrace => "\x7b" | rbrace => "\x7d"
  | lbracket => "[" | rbracket => "]"

def name : Sign → String
  | identical => "IDENTICAL" | notIdentical => "NOT_IDENTICAL"
  | equal => "EQUAL" | notEqual => "NOT_EQUAL" | eq => "EQ" | ne => "NE"
  | assignRef => "ASSIGN_REF" | assignVal => "ASSIGN_VAL" | assign => "ASSIGN"
  | le => "LE" | ge => "GE" | lt => "LT" | gt => "GT"
  | plus => "PLUS" | minus => "MINUS" | asterisk => "ASTERISK" | slash => "SLASH"
  | bang => "BANG" | and => "AND" | or => "OR"
  | dot => "DOT" | comma => "COMMA" | semicolon => "SEMICOLON" | colon => "COLON"
  | lparen => "LPAREN" | rparen => "RPAREN" | lbrace => "LBRACE" | rbrace => "RBRACE"
  | lbracket => "LBRACKET" | rbracket => "RBRACKET"

/-- A sign stands before every sign that its spelling starts with. -/
def all : List Sign :=
  [identical, notIdentical, equal, notEqual, eq, ne, assignRef, assignVal, assign, le, ge, lt, gt,
    plus, minus, asterisk, slash, bang, and, or, dot, comma, semicolon, colon,
    lparen, rparen, lbrace, rbrace, lbracket, rbracket]

end Sign

inductive Kind where
  | int | string | ident
  | keyword (word : Keyword)
  | sign (sign : Sign)
  | illegal | eof
  deriving DecidableEq, Repr

namespace Kind

def name : Kind → String
  | int => "INT" | string => "STRING" | ident => "IDENT"
  | keyword k => k.name
  | sign s => s.name
  | illegal => "ILLEGAL" | eof => "EOF"

def literals : Dict String String :=
  let signs := Sign.all.map fun s => (s.name, s.text)
  let words := Keyword.all.map fun k => (k.name, k.text)
  let others := [("INT", "integer"), ("STRING", "string"), ("IDENT", "identifier"), ("ILLEGAL", "illegal"),
    ("EOF", "end of input")]
  (signs ++ words ++ others).foldl (fun d e => d.put e.1 e.2) .empty

def literal? (k : Kind) : Option String := literals.get? k.name

end Kind

structure Token where
  kind : Kind
  text : String
  line : Nat
  deriving DecidableEq, Repr

namespace Token

def spelling? (t : Token) : Option String := if t.text = "" then t.kind.literal? else some t.text

def listing (name text : String) (line : Nat) : String :=
  "Token(" ++ name ++ ", " ++ Text.quote text ++ ", line=" ++ toString line ++ ")"

def render (t : Token) : String := listing t.kind.name t.text t.line

def renderAll (ts : List Token) : String := "[" ++ ", ".intercalate (ts.map Token.render) ++ "]"

end Token
end Baby
