import Baby.Grammar.Cursor
import Baby.Grammar.Forms
import Baby.Text.Digit
import Baby.Token.Scan
import Baby.Tree

/-! Reading trees from tokens, by operator precedence. Every reader is entered with the current
token on the first token of its construct and leaves it on the last one. A construct that cannot be
built is reported and gives nothing. The readers take the reader of expressions as an argument, and
`expression` closes the recursion: each nested expression starts at least one token further on, so
the number of tokens bounds the nesting. -/
namespace Baby.Parser

abbrev Reader := Precedence → Parser (Option Tree)

def integerMax : Nat := Nat.pow 2 63 - 1

def integer (tok : Token) : Parser (Option Tree) := do
  let digits := tok.text.toList
  if Oversize.limit < digits.length then
    throw (.oversize ⟨digits.length⟩)
  let value := Text.Digit.number digits
  if integerMax < value then
    report (.outOfRange tok.text) tok.line
    return none
  return some (.number value tok.line)

/-! Lists -/

def items (expr : Reader) : Nat → Parser (List (Option Tree))
  | 0 => return []
  | n + 1 => do
      let item ← expr .lowest
      if ← peekIs (.sign .comma) then
        advance
        advance
        return item :: (← items expr n)
      return [item]

def expressions (expr : Reader) (close : Sign) : Parser (Option (List Tree)) := do
  if ← peekIs (.sign close) then
    advance
    return some []
  advance
  let found ← items expr ((← remaining) + 1)
  if ← expect (.sign close) then
    return found.mapM id
  return none

def pairs (expr : Reader) : Nat → Parser (Option (List (Tree × Tree)))
  | 0 => return none
  | n + 1 => do
      if ← peekIs (.sign .rbrace) then
        advance
        return some []
      advance
      let key ← expr .lowest
      if !(← expect (.sign .colon)) then
        return none
      advance
      let value ← expr .lowest
      let some key := key | return none
      let some value := value | return none
      if !(← peekIs (.sign .rbrace)) then
        if !(← expect (.sign .comma)) then
          return none
      return (← pairs expr n).map ((key, value) :: ·)

def parameters : Nat → List String → Parser (Option (List String))
  | 0, _ => return none
  | n + 1, names => do
      if !(← expect .ident) then
        return none
      let tok ← curr
      if tok.text ∈ names then
        report (.duplicateParameter tok.text) tok.line
        return none
      let names := names ++ [tok.text]
      if ← peekIs (.sign .comma) then
        advance
        parameters n names
      else if ← expect (.sign .rparen) then
        return some names
      else
        return none

def parameterList : Parser (Option (List String)) := do
  if ← peekIs (.sign .rparen) then
    advance
    return some []
  parameters (← remaining) []

/-! Statements -/

/-- A semicolon, which may be left out before a closing brace and at the end of input. -/
def endStatement : Parser Bool := do
  let next ← peek
  if next.kind = .sign .semicolon then
    advance
    return true
  if next.kind = .sign .rbrace || next.kind = .eof then
    return true
  reportPeek (.sign .semicolon)
  synchronize
  return false

def lastExpression (expr : Reader) : Parser (Option Tree) := do
  match ← expr .lowest with
  | none =>
      synchronize
      return none
  | some value => return if ← endStatement then some value else none

def binding (expr : Reader) (build : String → Op → Tree → Tree) : Parser (Option Tree) := do
  let name := (← curr).text
  match (← peek).kind.assignOp? with
  | none =>
      reportPeek (.sign .assign)
      synchronize
      return none
  | some op =>
      advance
      advance
      return (← lastExpression expr).map (build name op)

def definition (expr : Reader) : Parser (Option Tree) := do
  let line := (← curr).line
  if ← expect .ident then
    binding expr fun name op value => .define name op value line
  else
    synchronize
    return none

def returning (expr : Reader) : Parser (Option Tree) := do
  let line := (← curr).line
  if ← peekIs (.sign .semicolon) then
    advance
    return some (.ret (.null line) line)
  advance
  return (← lastExpression expr).map fun value => .ret value line

def bare (expr : Reader) : Parser (Option Tree) := do
  let line := (← curr).line
  let value ← expr .lowest
  if ← peekIs (.sign .semicolon) then
    advance
  return value.map fun value => .statement value line

def statement (expr : Reader) : Parser (Option Tree) := do
  let tok ← curr
  match tok.kind with
  | .keyword .kLet => definition expr
  | .keyword .kReturn => returning expr
  | .ident =>
      if (← peek).kind.assignOp?.isSome then
        binding expr fun name op value => .assign name op value tok.line
      else
        bare expr
  | _ => bare expr

def statements (expr : Reader) (ends : Kind → Bool) : Nat → Parser (List Tree)
  | 0 => return []
  | n + 1 => do
      if ends (← curr).kind then
        return []
      let built ← statement expr
      advance
      return built.toList ++ (← statements expr ends n)

def block (expr : Reader) : Parser Tree := do
  let opened := (← curr).line
  advance
  let body ← statements expr (fun k => k = .sign .rbrace || k = .eof) (← remaining)
  let tok ← curr
  if tok.kind = .eof then
    report (.openBlock opened) tok.line
  return .block body opened

/-! Expressions -/

def condition (expr : Reader) : Parser (Option Tree) := do
  if !(← expect (.sign .lparen)) then
    return none
  advance
  match ← expr .lowest with
  | none => return none
  | some test =>
      if ← expect (.sign .rparen) then
        if ← expect (.sign .lbrace) then
          return some test
      return none

def conditional (expr : Reader) (line : Nat) : Parser (Option Tree) := do
  match ← condition expr with
  | none => return none
  | some test =>
      let yes ← block expr
      if ← peekIs (.keyword .kElse) then
        advance
        if ← expect (.sign .lbrace) then
          return some (.cond test yes (← block expr) line)
        return none
      return some (.cond test yes .missing line)

def repetition (expr : Reader) (line : Nat) : Parser (Option Tree) := do
  match ← condition expr with
  | none => return none
  | some test => return some (.loop test (← block expr) line)

def function (expr : Reader) (line : Nat) : Parser (Option Tree) := do
  if !(← expect (.sign .lparen)) then
    return none
  match ← parameterList with
  | none => return none
  | some params =>
      if ← expect (.sign .lbrace) then
        return some (.function params (← block expr) line)
      return none

def operator (table : Kind → Option Op) (tok : Token) : Parser Op :=
  match table tok.kind with
  | some op => return op
  | none => throw (.noEntry tok.kind)

def opening (expr : Reader) (tok : Token) : Opening → Parser (Option Tree)
  | .identifier => return some (.ident tok.text tok.line)
  | .integer => integer tok
  | .string => return some (.string tok.text tok.line)
  | .boolean value => return some (.boolean value tok.line)
  | .null => return some (.null tok.line)
  | .group => do
      advance
      let inner ← expr .lowest
      return if ← expect (.sign .rparen) then inner else none
  | .array => return (← expressions expr .rbracket).map (.array · tok.line)
  | .hash => return (← pairs expr ((← remaining) + 1)).map (.hash · tok.line)
  | .unary => do
      advance
      match ← expr .unary with
      | none => return none
      | some operand => return some (.unary (← operator Kind.unaryOp? tok) operand tok.line)
  | .conditional => conditional expr tok.line
  | .loop => repetition expr tok.line
  | .function => function expr tok.line

def continuation (expr : Reader) (tok : Token) (left : Tree) : Continuation → Parser (Option Tree)
  | .binary => do
      advance
      match ← expr tok.kind.precedence with
      | none => return none
      | some right => return some (.binary (← operator Kind.binaryOp? tok) left right tok.line)
  | .call => return (← expressions expr .rparen).map (.call left · tok.line)
  | .index => do
      advance
      match ← expr .lowest with
      | none => return none
      | some place => return if ← expect (.sign .rbracket) then some (.index left place tok.line) else none
  | .dot => do
      advance
      return (← expr .dot).map (.dot left · tok.line)

def extend (forms : Forms) (expr : Reader) (level : Precedence) : Nat → Tree → Parser (Option Tree)
  | 0, left => return some left
  | n + 1, left => do
      let next ← peek
      if next.kind = .sign .semicolon || next.kind.precedence ≤ level then
        return some left
      match forms.continuation? next.kind with
      | none => return some left
      | some form =>
          advance
          match ← continuation expr next left form with
          | none => return none
          | some left => extend forms expr level n left

def oneExpression (forms : Forms) (expr : Reader) : Reader := fun level => do
  let tok ← curr
  match forms.opening? tok.kind with
  | none =>
      report (if tok.kind = .illegal then .illegal tok.text else .noExpression tok) tok.line
      return none
  | some form =>
      match ← opening expr tok form with
      | none => return none
      | some left => extend forms expr level (← remaining) left

def expressionWithin (forms : Forms) : Nat → Reader
  | 0 => fun _ => return none
  | n + 1 => oneExpression forms (expressionWithin forms n)

def expression (forms : Forms) : Reader := fun level => do
  expressionWithin forms ((← remaining) + 1) level

def program : Parser Tree := do
  let line := (← curr).line
  let body ← statements (expression .standard) (fun k => k = .eof) (← remaining)
  return .program body line

end Baby.Parser

namespace Baby

structure Parsed where
  tree : Tree
  errors : List SyntaxError
  deriving Repr

/-- Reads a whole program. Errors never stop the reader: it reports all of them, and leaves out the
statements that it could not build. -/
def parseTokens (tokens : List Token) : Except Halt Parsed := do
  let (tree, c) ← Parser.program.run (Cursor.ofTokens tokens)
  return ⟨tree, c.errors⟩

def parse (source : String) : Except Halt Parsed := parseTokens (tokenize source)

end Baby
