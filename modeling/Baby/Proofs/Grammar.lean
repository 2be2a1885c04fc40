import Baby.Grammar.Forms
import Baby.Text.Digit
import Baby.Tree

/-! The grammar of programs, over tokens. A phrase is what a stretch of tokens is read as, together
with the tree it stands for, and it is derived before a following kind of token. Binary operators
associate to the left; an expression at a level goes on over every operator, call, index and attribute
that binds more tightly than the level, so what follows it never does. -/
namespace Baby

def following (ts : List Token) (next : Kind) : Kind := (ts.head?.map Token.kind).getD next

inductive Phrase where
  | expression (level : Precedence) (tree : Tree)
  | operand (level : Precedence) (tree : Tree)
  | opening (tree : Tree)
  | items (trees : List Tree)
  | list (close : Sign) (trees : List Tree)
  | pairs (pairs : List (Tree × Tree))
  | names (names : List String)
  | params (names : List String)
  | condition (tree : Tree)
  | block (tree : Tree)
  | statement (tree : Tree)
  | statements (trees : List Tree)

inductive Atom : Token → Tree → Prop where
  | ident {tok} (kind : tok.kind = .ident) : Atom tok (.ident tok.text tok.line)
  | integer {tok} (kind : tok.kind = .int)
      (fits : Text.Digit.number tok.text.toList < Nat.pow 2 63) :
      Atom tok (.number (Text.Digit.number tok.text.toList) tok.line)
  | string {tok} (kind : tok.kind = .string) : Atom tok (.string tok.text tok.line)
  | yes {tok} (kind : tok.kind = .keyword .kTrue) : Atom tok (.boolean true tok.line)
  | no {tok} (kind : tok.kind = .keyword .kFalse) : Atom tok (.boolean false tok.line)
  | null {tok} (kind : tok.kind = .keyword .kNull) : Atom tok (.null tok.line)

/- The end of a binding or of a return with a value: a semicolon, which only a closing brace or the
end of input may stand for. -/
def Ends (ts : List Token) (next : Kind) : Prop :=
  (∃ tok, tok.kind = .sign .semicolon ∧ ts = [tok]) ∨
    (ts = [] ∧ (next = .sign .rbrace ∨ next = .eof))

def MayEnd (ts : List Token) : Prop := (∃ tok, tok.kind = .sign .semicolon ∧ ts = [tok]) ∨ ts = []

inductive Derives : Phrase → List Token → Kind → Prop where
  | expression {level ts next e} (operand : Derives (.operand level e) ts next)
      (greedy : next.precedence ≤ level) : Derives (.expression level e) ts next
  -- Operands: what stands at the left of the next operator of a level.
  | opened {level ts next e} (opening : Derives (.opening e) ts next) :
      Derives (.operand level e) ts next
  | binary {level ts us next l r tok sign op} (left : Derives (.operand level l) ts tok.kind)
      (kind : tok.kind = .sign sign) (operator : sign.binaryOp? = some op)
      (tighter : level < sign.precedence)
      (right : Derives (.expression sign.precedence r) us next) :
      Derives (.operand level (.binary op l r tok.line)) (ts ++ tok :: us) next
  | call {level ts us next l args tok} (left : Derives (.operand level l) ts tok.kind)
      (kind : tok.kind = .sign .lparen) (tighter : level < .call)
      (list : Derives (.list .rparen args) us next) :
      Derives (.operand level (.call l args tok.line)) (ts ++ tok :: us) next
  | index {level ts us next l place tok close} (left : Derives (.operand level l) ts tok.kind)
      (kind : tok.kind = .sign .lbracket) (tighter : level < .index)
      (inner : Derives (.expression .lowest place) us (.sign .rbracket))
      (closed : close.kind = .sign .rbracket) :
      Derives (.operand level (.index l place tok.line)) (ts ++ tok :: (us ++ [close])) next
  | dot {level ts us next l key tok} (left : Derives (.operand level l) ts tok.kind)
      (kind : tok.kind = .sign .dot) (tighter : level < .dot)
      (right : Derives (.expression .dot key) us next) :
      Derives (.operand level (.dot l key tok.line)) (ts ++ tok :: us) next
  -- Openings: what an expression starts with.
  | atom {tok next e} (atom : Atom tok e) : Derives (.opening e) [tok] next
  | group {ts next e tok close} (kind : tok.kind = .sign .lparen)
      (inner : Derives (.expression .lowest e) ts (.sign .rparen))
      (closed : close.kind = .sign .rparen) : Derives (.opening e) (tok :: (ts ++ [close])) next
  | unary {ts next e tok sign op} (kind : tok.kind = .sign sign) (operator : sign.unaryOp? = some op)
      (inner : Derives (.expression .unary e) ts next) :
      Derives (.opening (.unary op e tok.line)) (tok :: ts) next
  | array {ts next es tok} (kind : tok.kind = .sign .lbracket)
      (list : Derives (.list .rbracket es) ts next) :
      Derives (.opening (.array es tok.line)) (tok :: ts) next
  | hash {ts next ps tok} (kind : tok.kind = .sign .lbrace) (pairs : Derives (.pairs ps) ts next) :
      Derives (.opening (.hash ps tok.line)) (tok :: ts) next
  | cond {ts us next test yes tok} (kind : tok.kind = .keyword .kIf)
      (condition : Derives (.condition test) ts (.sign .lbrace))
      (body : Derives (.block yes) us next) :
      Derives (.opening (.cond test yes .missing tok.line)) (tok :: (ts ++ us)) next
  | condElse {ts us vs next test yes no tok other} (kind : tok.kind = .keyword .kIf)
      (condition : Derives (.condition test) ts (.sign .lbrace))
      (body : Derives (.block yes) us other.kind) (otherwise : other.kind = .keyword .kElse)
      (alternative : Derives (.block no) vs next) :
      Derives (.opening (.cond test yes no tok.line)) (tok :: (ts ++ (us ++ other :: vs))) next
  | loop {ts us next test body tok} (kind : tok.kind = .keyword .kWhile)
      (condition : Derives (.condition test) ts (.sign .lbrace))
      (block : Derives (.block body) us next) :
      Derives (.opening (.loop test body tok.line)) (tok :: (ts ++ us)) next
  | function {ts us next names body tok start} (kind : tok.kind = .keyword .kFun)
      (started : start.kind = .sign .lparen)
      (params : Derives (.params names) ts (.sign .lbrace))
      (block : Derives (.block body) us next) :
      Derives (.opening (.function names body tok.line)) (tok :: start :: (ts ++ us)) next
  -- Parts of openings.
  | lastItem {ts next e} (item : Derives (.expression .lowest e) ts next) :
      Derives (.items [e]) ts next
  | moreItems {ts us next e es comma} (item : Derives (.expression .lowest e) ts (.sign .comma))
      (separated : comma.kind = .sign .comma) (others : Derives (.items es) us next) :
      Derives (.items (e :: es)) (ts ++ comma :: us) next
  | noItems {close tok next} (closed : tok.kind = .sign close) : Derives (.list close []) [tok] next
  | someItems {close ts es tok next} (items : Derives (.items es) ts (.sign close))
      (closed : tok.kind = .sign close) : Derives (.list close es) (ts ++ [tok]) next
  | noPairs {tok next} (closed : tok.kind = .sign .rbrace) : Derives (.pairs []) [tok] next
  | lastPair {ts us k v colon tok next} (key : Derives (.expression .lowest k) ts (.sign .colon))
      (separated : colon.kind = .sign .colon)
      (value : Derives (.expression .lowest v) us (.sign .rbrace))
      (closed : tok.kind = .sign .rbrace) :
      Derives (.pairs [(k, v)]) (ts ++ colon :: (us ++ [tok])) next
  | morePairs {ts us vs k v ps colon comma next}
      (key : Derives (.expression .lowest k) ts (.sign .colon))
      (separated : colon.kind = .sign .colon)
      (value : Derives (.expression .lowest v) us (.sign .comma))
      (continued : comma.kind = .sign .comma) (others : Derives (.pairs ps) vs next) :
      Derives (.pairs ((k, v) :: ps)) (ts ++ colon :: (us ++ comma :: vs)) next
  | lastName {tok close next} (kind : tok.kind = .ident) (closed : close.kind = .sign .rparen) :
      Derives (.names [tok.text]) [tok, close] next
  | moreNames {ts tok comma names next} (kind : tok.kind = .ident)
      (separated : comma.kind = .sign .comma) (others : Derives (.names names) ts next) :
      Derives (.names (tok.text :: names)) (tok :: comma :: ts) next
  | noParams {tok next} (closed : tok.kind = .sign .rparen) : Derives (.params []) [tok] next
  | someParams {ts names next} (list : Derives (.names names) ts next) (distinct : names.Nodup) :
      Derives (.params names) ts next
  | condition {ts e tok close next} (kind : tok.kind = .sign .lparen)
      (inner : Derives (.expression .lowest e) ts (.sign .rparen))
      (closed : close.kind = .sign .rparen) : Derives (.condition e) (tok :: (ts ++ [close])) next
  | block {ts body tok close next} (kind : tok.kind = .sign .lbrace)
      (statements : Derives (.statements body) ts (.sign .rbrace))
      (closed : close.kind = .sign .rbrace) :
      Derives (.block (.block body tok.line)) (tok :: (ts ++ [close])) next
  -- Statements.
  | noStatements {next} : Derives (.statements []) [] next
  | someStatements {ts us t body next} (first : Derives (.statement t) ts (following us next))
      (others : Derives (.statements body) us next) :
      Derives (.statements (t :: body)) (ts ++ us) next
  | define {ts es e tok name sign op next} (kind : tok.kind = .keyword .kLet)
      (named : name.kind = .ident) (operator : sign.kind.assignOp? = some op)
      (value : Derives (.expression .lowest e) ts (following es next)) (ends : Ends es next) :
      Derives (.statement (.define name.text op e tok.line)) (tok :: name :: sign :: (ts ++ es)) next
  | assign {ts es e name sign op next} (named : name.kind = .ident)
      (operator : sign.kind.assignOp? = some op)
      (value : Derives (.expression .lowest e) ts (following es next)) (ends : Ends es next) :
      Derives (.statement (.assign name.text op e name.line)) (name :: sign :: (ts ++ es)) next
  | returnNull {tok semicolon next} (kind : tok.kind = .keyword .kReturn)
      (closed : semicolon.kind = .sign .semicolon) :
      Derives (.statement (.ret (.null tok.line) tok.line)) [tok, semicolon] next
  | returnValue {ts es e tok next} (kind : tok.kind = .keyword .kReturn)
      (value : Derives (.expression .lowest e) ts (following es next)) (ends : Ends es next) :
      Derives (.statement (.ret e tok.line)) (tok :: (ts ++ es)) next
  | bare {tok ts es e next} (value : Derives (.expression .lowest e) (tok :: ts) (following es next))
      (ends : MayEnd es) : Derives (.statement (.statement e tok.line)) (tok :: ts ++ es) next

def DerivesProgram (ts : List Token) (finish : Token) (tree : Tree) : Prop :=
  ∃ body, Derives (.statements body) ts finish.kind ∧
    tree = .program body (ts.headD finish).line

end Baby
