import Baby.Proofs.Rereading

/-! Chains of operands between binary operators. A chain is read to the one tree in which the operators on the
left of an operator bind at least as tightly as it does, and those on its right more tightly. -/
namespace Baby

/-! Operands -/

structure Primary where
  tokens : List Token
  tree : Tree
  reads : ∀ next, Derives (.opening tree) tokens next

def Primary.ofAtom {tok : Token} {e : Tree} (atom : Atom tok e) : Primary := ⟨[tok], e, fun _ => .atom atom⟩

structure Operator (table : Sign → Option Op) where
  tok : Token
  sign : Sign
  op : Op
  kind : tok.kind = .sign sign
  operator : table sign = some op

abbrev UnaryOperator := Operator Sign.unaryOp?

abbrev BinaryOperator := Operator Sign.binaryOp?

inductive Suffix where
  | call (tok : Token) (inner : List Token) (args : List Tree) (kind : tok.kind = .sign .lparen)
      (reads : ∀ next, Derives (.list .rparen args) inner next)
  | index (tok : Token) (inner : List Token) (place : Tree) (close : Token) (kind : tok.kind = .sign .lbracket)
      (reads : Derives (.expression .lowest place) inner (.sign .rbracket))
      (closed : close.kind = .sign .rbracket)
  | dot (tok : Token) (key : Primary) (kind : tok.kind = .sign .dot)

namespace Suffix

def tokens : Suffix → List Token
  | call tok inner .. => tok :: inner
  | index tok inner _ close .. => tok :: (inner ++ [close])
  | dot tok key _ => tok :: key.tokens

def on (target : Tree) : Suffix → Tree
  | call tok _ args .. => .call target args tok.line
  | index tok _ place .. => .index target place tok.line
  | dot tok key _ => .dot target key.tree tok.line

end Suffix

structure Operand where
  signs : List UnaryOperator
  primary : Primary
  suffixes : List Suffix

namespace Operand

def tokens (o : Operand) : List Token :=
  o.signs.map Operator.tok ++ (o.primary.tokens ++ o.suffixes.flatMap Suffix.tokens)

def tree (o : Operand) : Tree :=
  o.signs.foldr (fun s e => .unary s.op e s.tok.line) (o.suffixes.foldl Suffix.on o.primary.tree)

end Operand

section
variable {level : Precedence} {e : Tree} {ts : List Token}

theorem suffixDerives (left : ∀ next, Derives (.operand level e) ts next) (low : level < .call) (s : Suffix)
    (next : Kind) : Derives (.operand level (s.on e)) (ts ++ s.tokens) next := by
  cases s with
  | call tok inner args kind reads => exact .call (left _) kind low (reads next)
  | index tok inner place close kind reads closed =>
    exact .index (left _) kind (Nat.lt_trans low (by decide)) reads closed
  | dot tok key kind =>
    have behind := Derives.expression (.opened (key.reads next)) (dotHighest next)
    exact .dot (left _) kind (Nat.lt_trans low (by decide)) behind

theorem suffixesDerive (left : ∀ next, Derives (.operand level e) ts next) (low : level < .call)
    (suffixes : List Suffix) (next : Kind) :
    Derives (.operand level (suffixes.foldl Suffix.on e)) (ts ++ suffixes.flatMap Suffix.tokens) next := by
  induction suffixes generalizing e ts with
  | nil => simpa using left next
  | cons s suffixes ih =>
    rw [List.flatMap_cons, ← List.append_assoc]
    exact ih (suffixDerives left low s)

theorem operandDerives (o : Operand) {next : Kind} (low : level < .call) (ends : next.precedence ≤ .unary) :
    Derives (.operand level o.tree) o.tokens next := by
  obtain ⟨signs, primary, suffixes⟩ := o
  induction signs generalizing level with
  | nil => exact suffixesDerive (fun next => .opened (primary.reads next)) low suffixes next
  | cons s signs ih =>
    have inner := Derives.expression (ih (show Precedence.unary < .call by decide)) ends
    exact .opened (.unary s.kind s.operator inner)

end

/-! Chains -/

structure Link where
  operator : BinaryOperator
  operand : Operand

namespace Link

def precedence (l : Link) : Precedence := l.operator.sign.precedence

def tokens (l : Link) : List Token := l.operator.tok :: l.operand.tokens

end Link

def chainTokens (first : Operand) (links : List Link) : List Token :=
  first.tokens ++ links.flatMap Link.tokens

/- The tree has the operands and the operators of the chain in their order, and the operators on the left of
each one bind at least as tightly, those on its right more tightly. -/
inductive Nests : Tree → Operand → List Link → Prop where
  | leaf (o : Operand) : Nests o.tree o []
  | node {l r : Tree} {first : Operand} {before after : List Link} (link : Link) (left : Nests l first before)
      (right : Nests r link.operand after) (noLooser : ∀ x ∈ before, link.precedence ≤ x.precedence)
      (tighter : ∀ x ∈ after, link.precedence < x.precedence) :
      Nests (.binary link.operator.op l r link.operator.tok.line) first (before ++ link :: after)

section
variable {t : Tree} {first : Operand} {links : List Link} {level : Precedence} {next : Kind}

theorem binaryBelowUnary {sign : Sign} {op : Op} (h : sign.binaryOp? = some op) : sign.precedence < .unary := by
  cases sign <;> simp [Sign.binaryOp?] at h <;> decide

theorem Nests.snoc (h : Nests t first links) (link : Link) : ∃ t', Nests t' first (links ++ [link]) := by
  induction h with
  | leaf o => exact ⟨_, .node link (.leaf o) (.leaf link.operand) (by simp) (by simp)⟩
  | @node l r first before after root left right noLooser tighter _ ih =>
    by_cases below : root.precedence < link.precedence
    · obtain ⟨r', right'⟩ := ih
      have tighter' (x : Link) (member : x ∈ after ++ [link]) : root.precedence < x.precedence := by
        rcases List.mem_append.1 member with old | new
        · exact tighter x old
        · rw [List.mem_singleton.1 new]
          exact below
      rw [List.append_assoc, List.cons_append]
      exact ⟨_, .node root left right' noLooser tighter'⟩
    · have loosest : link.precedence ≤ root.precedence := Nat.le_of_not_lt below
      refine ⟨_, .node link (.node root left right noLooser tighter) (.leaf link.operand) ?_ (by simp)⟩
      intro x member
      rcases List.mem_append.1 member with old | new
      · exact Nat.le_trans loosest (noLooser x old)
      · rcases List.mem_cons.1 new with rfl | new
        · exact loosest
        · exact Nat.le_trans loosest (Nat.le_of_lt (tighter x new))

theorem Nests.append (h : Nests t first links) (more : List Link) : ∃ t', Nests t' first (links ++ more) := by
  induction more generalizing t links with
  | nil => exact ⟨t, (List.append_nil links).symm ▸ h⟩
  | cons link more ih =>
    obtain ⟨t', longer⟩ := h.snoc link
    rw [List.append_cons]
    exact ih longer

theorem Nests.derives (h : Nests t first links) (low : level < .call) (ends : next.precedence ≤ .unary)
    (tight : ∀ x ∈ links, level < x.precedence ∧ next.precedence ≤ x.precedence) :
    Derives (.operand level t) (chainTokens first links) next := by
  induction h generalizing level next with
  | leaf o =>
    rw [chainTokens, List.flatMap_nil, List.append_nil]
    exact operandDerives o low ends
  | @node l r first before after link left right noLooser tighter ihLeft ihRight =>
    have here := tight link (by simp)
    have below := binaryBelowUnary link.operator.operator
    have kind : link.operator.tok.kind.precedence = link.precedence := by
      rw [link.operator.kind]
      rfl
    have first' : Derives (.operand level l) (chainTokens first before) link.operator.tok.kind := by
      apply ihLeft low
      · rw [kind]
        exact Nat.le_of_lt below
      · intro x member
        rw [kind]
        exact ⟨(tight x (by simp [member])).1, noLooser x member⟩
    have second : Derives (.expression link.precedence r) (chainTokens link.operand after) next := by
      apply Derives.expression _ here.2
      apply ihRight (Nat.lt_trans below (by decide)) ends
      intro x member
      exact ⟨tighter x member, (tight x (by simp [member])).2⟩
    have whole : chainTokens first (before ++ link :: after) =
        chainTokens first before ++ link.operator.tok :: chainTokens link.operand after := by
      simp [chainTokens, Link.tokens]
    rw [whole]
    exact .binary first' link.operator.kind link.operator.operator here.1 second

end

/-! Reading -/

namespace Spans

theorem last {l ts l' : List Token} (h : Spans l ts l') : ts.getLast? = l'.head? := by
  induction h with
  | one => rfl
  | more tok tail ih =>
    cases tail with
    | one => rfl
    | more => exact ih

end Spans

section
variable {t : Tree} {first : Operand} {links : List Link} {rest : List Token} {finish : Token}

theorem Nests.read (h : Nests t first links) (short : Short (chainTokens first links))
    (ends : (following rest finish.kind).precedence ≤ .lowest)
    (other : following rest finish.kind ≠ .keyword .kElse) (errors : List SyntaxError) :
    ∃ last, (chainTokens first links).getLast? = some last ∧
      (Parser.expression .standard .lowest).run ⟨chainTokens first links ++ rest, finish, errors⟩ =
        .ok (some t, ⟨last :: rest, finish, errors⟩) := by
  have derived : Derives (.expression .lowest t) (chainTokens first links) (following rest finish.kind) := by
    apply Derives.expression _ ends
    apply h.derives (by decide) (Nat.le_trans ends (by decide))
    intro x _
    have low := (binaryBetween x.operator.operator).1
    exact ⟨low, Nat.le_trans ends (Nat.le_of_lt low)⟩
  obtain ⟨l, span⟩ := Spans.ofAppend _ rest (derivesNotEmpty derived nofun)
  obtain ⟨last, after, rfl, same⟩ := span.split
  cases List.append_cancel_left same
  have ahead : ((⟨[], finish, errors⟩ : Cursor).on (last :: rest)).peek.kind = following rest finish.kind := by
    cases rest <;> rfl
  exact ⟨last, span.last, derivesTaken derived short other (nestedExpression _) span ahead (Nat.lt_succ_self _)⟩

end

/-- A chain of operands and binary operators of any length is read without an error, up to its last token, to
the only tree that has them in this order with looser operators above tighter ones and, of those that bind
alike, later ones above earlier ones. Signs and suffixes stay with their operand. -/
theorem chainsReadByPrecedence (first : Operand) (links : List Link) (rest : List Token) (finish : Token)
    (errors : List SyntaxError) (short : Short (chainTokens first links))
    (ends : (following rest finish.kind).precedence ≤ .lowest)
    (other : following rest finish.kind ≠ .keyword .kElse) :
    ∃ tree last, (∀ t, Nests t first links ↔ t = tree) ∧
      (chainTokens first links).getLast? = some last ∧
      (Parser.expression .standard .lowest).run ⟨chainTokens first links ++ rest, finish, errors⟩ =
        .ok (some tree, ⟨last :: rest, finish, errors⟩) := by
  obtain ⟨tree, nests⟩ : ∃ tree, Nests tree first ([] ++ links) := (Nests.leaf first).append links
  obtain ⟨last, final, read⟩ := Nests.read nests short ends other errors
  have only (t : Tree) : Nests t first links ↔ t = tree := by
    constructor
    · -- Every such tree is what is read, and only one tree is read.
      intro alike
      obtain ⟨_, _, again⟩ := Nests.read alike short ends other errors
      cases read.symm.trans again
      rfl
    · intro same
      rw [same]
      exact nests
  exact ⟨tree, last, only, final, read⟩

def Primary.named (name : String) : Primary :=
  .ofAtom (.ident (rfl : (⟨.ident, name, 1⟩ : Token).kind = .ident))

def Operand.plain (name : String) : Operand := ⟨[], .named name, []⟩

def Operand.negatedEntry : Operand :=
  ⟨[⟨⟨.sign .bang, "!", 1⟩, .bang, .not, rfl, rfl⟩], .named "d",
    [.dot ⟨.sign .dot, ".", 1⟩ (.named "e") rfl]⟩

def Link.minus (o : Operand) : Link := ⟨⟨⟨.sign .minus, "-", 1⟩, .minus, .sub, rfl, rfl⟩, o⟩

def Link.times (o : Operand) : Link := ⟨⟨⟨.sign .asterisk, "*", 1⟩, .asterisk, .mul, rfl, rfl⟩, o⟩

def differenceTree : Tree :=
  .binary .sub (.binary .sub (.ident "a" 1) (.binary .mul (.ident "b" 1) (.ident "c" 1) 1) 1)
    (.unary .not (.dot (.ident "d" 1) (.ident "e" 1) 1) 1) 1

theorem differenceNests :
    Nests differenceTree (.plain "a") [.minus (.plain "b"), .times (.plain "c"), .minus .negatedEntry] := by
  have product : Nests _ (.plain "b") ([] ++ [.times (.plain "c")]) :=
    .node _ (.leaf _) (.leaf _) (by decide) (by decide)
  have difference : Nests _ (.plain "a") ([] ++ .minus (.plain "b") :: [.times (.plain "c")]) :=
    .node _ (.leaf _) product (by decide) (by decide)
  exact .node (.minus .negatedEntry) difference (.leaf .negatedEntry) (by decide) (by decide)

theorem chainsReadByPrecedenceDifference :
    (Parser.expression .standard .lowest).run ⟨chainTokens (.plain "a")
        [.minus (.plain "b"), .times (.plain "c"), .minus .negatedEntry], ⟨.eof, "", 1⟩, []⟩ =
      .ok (some differenceTree, ⟨[⟨.ident, "e", 1⟩], ⟨.eof, "", 1⟩, []⟩) := by
  obtain ⟨tree, last, only, final, read⟩ := chainsReadByPrecedence (.plain "a")
    [.minus (.plain "b"), .times (.plain "c"), .minus .negatedEntry] [] ⟨.eof, "", 1⟩ []
    (by unfold Short; decide) (by decide) (by decide)
  cases (only _).1 differenceNests
  cases final
  exact read

end Baby
