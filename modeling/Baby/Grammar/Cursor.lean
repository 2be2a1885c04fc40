import Baby.Token

/-! The reader's place in a list of tokens, and what it reports. -/
namespace Baby

inductive Complaint where
  | expected (kind : Kind) (got : Token)
  | noExpression (got : Token)
  | illegal (text : String)
  | outOfRange (text : String)
  | duplicateParameter (name : String)
  | openBlock (opened : Nat)
  deriving DecidableEq, Repr

def Complaint.message : Complaint → String
  | expected kind got =>
      "Expected token '" ++ kind.literal?.getD kind.name ++ "' but got '" ++
        got.spelling?.getD got.kind.name ++ "' (" ++ got.kind.name ++ ")"
  | noExpression got =>
      "No prefix parse function for '" ++ got.spelling?.getD got.kind.name ++ "' (" ++ got.kind.name ++ ")"
  | illegal text => "Illegal token '" ++ text ++ "'"
  | outOfRange text => "Could not parse '" ++ text ++ "' as integer"
  | duplicateParameter name => "Duplicate parameter '" ++ name ++ "'"
  | openBlock opened =>
      "Expected token '\x7d' to close block opened on line " ++ toString opened ++ " but got end of input"

structure SyntaxError where
  complaint : Complaint
  line : Nat
  deriving DecidableEq, Repr

def SyntaxError.message (e : SyntaxError) : String :=
  e.complaint.message ++ " on line " ++ toString e.line

structure Oversize where
  digits : Nat
  deriving DecidableEq, Repr

def Oversize.limit : Nat := 4300

def Oversize.message (o : Oversize) : String :=
  "Exceeds the limit (" ++ toString limit ++ " digits) for integer string conversion: value has " ++
    toString o.digits ++ " digits; use sys.set_int_max_str_digits() to increase the limit"

/-- What stops the reader: a literal that is too long, or a table that has no entry for a kind of token. -/
inductive Halt where
  | oversize (literal : Oversize)
  | noEntry (kind : Kind)
  deriving DecidableEq, Repr

def Halt.message : Halt → String
  | oversize literal => literal.message
  | noEntry kind => "'" ++ kind.name ++ "'"

structure Cursor where
  ahead : List Token
  finish : Token
  errors : List SyntaxError
  deriving DecidableEq, Repr

namespace Cursor

def ofTokens (tokens : List Token) : Cursor :=
  ⟨tokens.dropLast, tokens.getLastD ⟨.eof, "", 1⟩, []⟩

def curr (c : Cursor) : Token := c.ahead.headD c.finish

def peek (c : Cursor) : Token := (c.ahead.drop 1).headD c.finish

def advance (c : Cursor) : Cursor := { c with ahead := c.ahead.drop 1 }

def report (c : Cursor) (e : SyntaxError) : Cursor := { c with errors := c.errors ++ [e] }

def synchronize (c : Cursor) : Cursor :=
  { c with ahead := c.ahead.dropWhile fun t => t.kind ≠ .sign .semicolon && t.kind ≠ .eof }

end Cursor

abbrev Parser := StateT Cursor (Except Halt)

namespace Parser

def curr : Parser Token := return (← get).curr

def peek : Parser Token := return (← get).peek

def peekIs (kind : Kind) : Parser Bool := return (← get).peek.kind = kind

def advance : Parser Unit := modify Cursor.advance

def synchronize : Parser Unit := modify Cursor.synchronize

def report (complaint : Complaint) (line : Nat) : Parser Unit := modify (·.report ⟨complaint, line⟩)

def reportPeek (kind : Kind) : Parser Unit := do
  let next ← peek
  match next.spelling? with
  | some _ => report (.expected kind next) next.line
  | none => throw (.noEntry next.kind)

def expect (kind : Kind) : Parser Bool := do
  if ← peekIs kind then
    advance
    return true
  reportPeek kind
  return false

/-- How many tokens are left: a bound for every loop, since each round takes at least one. -/
def remaining : Parser Nat := return (← get).ahead.length

end Parser
end Baby
