import Baby.Op
import Baby.Token

/-! Which tokens can open an expression, which can continue one, and how tightly they bind. -/
namespace Baby

abbrev Precedence := Nat

namespace Precedence

def lowest : Precedence := 1
def logical : Precedence := 2
def equality : Precedence := 3
def ordering : Precedence := 4
def sum : Precedence := 5
def product : Precedence := 6
def unary : Precedence := 7
def call : Precedence := 8
def index : Precedence := 9
def dot : Precedence := 10

end Precedence

namespace Sign

def binaryOp? : Sign → Option Op
  | plus => some .add | minus => some .sub | asterisk => some .mul | slash => some .div
  | gt => some .gt | lt => some .lt | ge => some .ge | le => some .le
  | identical => some .identical | notIdentical => some .notIdentical
  | equal | eq => some .equal
  | notEqual | ne => some .notEqual
  | and => some .and | or => some .or
  | _ => none

def unaryOp? : Sign → Option Op
  | bang => some .not | minus => some .sub
  | _ => none

def assignOp? : Sign → Option Op
  | assign => some .assign | assignRef => some .assignRef | assignVal => some .assignVal
  | _ => none

def precedence : Sign → Precedence
  | and | or => .logical
  | identical | notIdentical | equal | notEqual | eq | ne => .equality
  | lt | gt | le | ge => .ordering
  | plus | minus => .sum
  | asterisk | slash => .product
  | lparen => .call
  | lbracket => .index
  | dot => .dot
  | _ => .lowest

end Sign

namespace Kind

def binaryOp? : Kind → Option Op
  | sign s => s.binaryOp?
  | _ => none

def unaryOp? : Kind → Option Op
  | sign s => s.unaryOp?
  | _ => none

def assignOp? : Kind → Option Op
  | sign s => s.assignOp?
  | _ => none

def precedence : Kind → Precedence
  | sign s => s.precedence
  | _ => .lowest

end Kind

inductive Opening where
  | identifier | integer | string
  | boolean (value : Bool)
  | null | group | array | hash | unary
  | conditional | loop | function
  deriving DecidableEq, Repr

inductive Continuation where
  | binary | call | index | dot
  deriving DecidableEq, Repr

structure Forms where
  opening? : Kind → Option Opening
  continuation? : Kind → Option Continuation

namespace Forms

def standardOpening? : Kind → Option Opening
  | .ident => some .identifier
  | .int => some .integer
  | .string => some .string
  | .keyword .kTrue => some (.boolean true)
  | .keyword .kFalse => some (.boolean false)
  | .keyword .kNull => some .null
  | .keyword .kIf => some .conditional
  | .keyword .kWhile => some .loop
  | .keyword .kFun => some .function
  | .sign .lparen => some .group
  | .sign .lbracket => some .array
  | .sign .lbrace => some .hash
  | .sign .bang => some .unary
  | .sign .minus => some .unary
  | _ => none

def standardContinuation? : Kind → Option Continuation
  | .sign .lparen => some .call
  | .sign .lbracket => some .index
  | .sign .dot => some .dot
  | k => k.binaryOp?.map fun _ => .binary

def standard : Forms := ⟨standardOpening?, standardContinuation?⟩

def without (f : Forms) (openings continuations : List Kind) : Forms where
  opening? k := if k ∈ openings then none else f.opening? k
  continuation? k := if k ∈ continuations then none else f.continuation? k

end Forms
end Baby
