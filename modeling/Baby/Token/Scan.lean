import Baby.Text.Digit
import Baby.Token

/-! Scanning: a source text is cut into lexemes by an ordered table of rules, of which the first
that matches is taken. -/
namespace Baby
open Text.Digit (isDigit)

inductive Rule where
  | int | string | unterminated | word
  | sign (sign : Sign)
  | comment | newline | blanks | other
  deriving DecidableEq, Repr

namespace Rule

def isWordStart (c : Char) : Bool := c.isAlpha || c = '_'

def isWordPart (c : Char) : Bool := c.isAlphanum || c = '_'

def isGap (c : Char) : Bool := c = ' ' || c = '\t' || c = '\r'

def match? : Rule → List Char → Option (List Char)
  | int, cs =>
      let digits := cs.takeWhile isDigit
      if digits.isEmpty then none else some digits
  | string, '"' :: cs =>
      let body := cs.takeWhile (· ≠ '"')
      if body.length < cs.length then some ('"' :: body ++ ['"']) else none
  | unterminated, '"' :: cs => some ('"' :: cs.takeWhile (· ≠ '"'))
  | word, c :: cs => if isWordStart c then some (c :: cs.takeWhile isWordPart) else none
  | sign s, cs => if s.text.toList.isPrefixOf cs then some s.text.toList else none
  | comment, '#' :: cs => some ('#' :: cs.takeWhile (· ≠ '\n'))
  | newline, '\n' :: _ => some ['\n']
  | newline, '\r' :: '\n' :: _ => some ['\r', '\n']
  | blanks, cs =>
      let gap := cs.takeWhile isGap
      if gap.isEmpty then none else some gap
  | other, c :: _ => if c = '\n' then none else some [c]
  | _, _ => none

def table : List Rule :=
  [int, string, unterminated, word] ++ Sign.all.map sign ++ [comment, newline, blanks, other]

def first? (cs : List Char) : Option (Rule × List Char) :=
  table.findSome? fun r => (r.match? cs).map fun lexeme => (r, lexeme)

def isTrivia : Rule → Bool
  | comment | newline | blanks => true
  | _ => false

def kind (lexeme : List Char) : Rule → Kind
  | int => .int
  | string => .string
  | word => ((Keyword.ofText? (String.ofList lexeme)).map Kind.keyword).getD .ident
  | sign s => .sign s
  | _ => .illegal

def text (lexeme : List Char) : Rule → String
  | string => String.ofList (lexeme.drop 1).dropLast
  | _ => String.ofList lexeme

/-- How many lines the scanner goes on by behind a lexeme. The rules that no case is made for are taken to
match within a line. -/
def lines (lexeme : List Char) : Rule → Nat
  | newline => 1
  | string | unterminated => lexeme.count '\n'
  | _ => 0

end Rule

structure Scanner where
  rest : List Char
  position : Nat
  line : Nat
  deriving DecidableEq, Repr

namespace Scanner

def start (source : String) : Scanner := ⟨source.toList, 0, 1⟩

def skip (s : Scanner) (rule : Rule) (lexeme : List Char) : Scanner :=
  ⟨s.rest.drop lexeme.length, s.position + lexeme.length, s.line + rule.lines lexeme⟩

def nextWithin : Nat → Scanner → Token × Scanner
  | 0, s => (⟨.eof, "", s.line⟩, s)
  | n + 1, s =>
      match Rule.first? s.rest with
      | none => (⟨.eof, "", s.line⟩, s)
      | some (rule, lexeme) =>
          if rule.isTrivia then nextWithin n (s.skip rule lexeme)
          else (⟨rule.kind lexeme, rule.text lexeme, s.line⟩, s.skip rule lexeme)

/-- The next token; after the last one, the end token for ever. A lexeme is never empty, so the
number of characters left bounds how much is skipped. -/
def next (s : Scanner) : Token × Scanner := nextWithin (s.rest.length + 1) s

def tokensWithin : Nat → Scanner → List Token
  | 0, _ => []
  | n + 1, s =>
      let (t, s) := s.next
      if t.kind = .eof then [t] else t :: tokensWithin n s

end Scanner

def tokenize (source : String) : List Token :=
  let s := Scanner.start source
  s.tokensWithin (s.rest.length + 1)

end Baby
