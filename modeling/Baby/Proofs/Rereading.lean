import Baby.Proofs.GrammarComplete
import Baby.Proofs.ParsedTrees

/-! What is derived from the tokens of a canonical text. Calls and literals stand there without
parentheses; only behind a dot is a call taken apart, since the dot takes its callee away. -/
namespace Baby

namespace Tree

mutual

@[simp] def unlined : Tree → Tree
  | program body _ => program (unlinedEach body) 0
  | block body _ => block (unlinedEach body) 0
  | define name op value _ => define name op (unlined value) 0
  | assign name op value _ => assign name op (unlined value) 0
  | ret value _ => ret (unlined value) 0
  | statement value _ => statement (unlined value) 0
  | ident name _ => ident name 0
  | number n _ => number n 0
  | string s _ => string s 0
  | boolean b _ => boolean b 0
  | null _ => null 0
  | array elements _ => array (unlinedEach elements) 0
  | hash pairs _ => hash (unlinedPairs pairs) 0
  | function params body _ => function params (unlined body) 0
  | unary op operand _ => unary op (unlined operand) 0
  | binary op left right _ => binary op (unlined left) (unlined right) 0
  | cond test yes no _ => cond (unlined test) (unlined yes) (unlined no) 0
  | loop test body _ => loop (unlined test) (unlined body) 0
  | call callee args _ => call (unlined callee) (unlinedEach args) 0
  | index target place _ => index (unlined target) (unlined place) 0
  | dot target key _ => dot (unlined target) (unlined key) 0
  | missing => missing
  | unknown tag => unknown tag

@[simp] def unlinedEach : List Tree → List Tree
  | [] => []
  | t :: ts => unlined t :: unlinedEach ts

@[simp] def unlinedPairs : List (Tree × Tree) → List (Tree × Tree)
  | [] => []
  | (k, v) :: ps => (unlined k, unlined v) :: unlinedPairs ps

end

def isCall : Tree → Bool
  | call .. => true
  | _ => false

def callKeyed : Tree → Bool
  | dot _ key _ => key.isCall
  | _ => false

def Kept : Tree → Prop := Every fun t => t.callKeyed = false

theorem keptIff (t : Tree) : t.Kept ↔ t.callKeyed = false ∧ ∀ u ∈ t.parts, u.Kept := by
  refine ⟨fun h => ?_, fun h => .node h.1 h.2⟩
  cases h with
  | node here parts => exact ⟨here, parts⟩

/- Derived for `t`, the tree `e` is the same just if `t` has no call for a key. -/
abbrev Mirrors (e t : Tree) : Prop := e.unlined = t.unlined ↔ t.Kept

abbrev MirrorsEach (es ts : List Tree) : Prop := unlinedEach es = unlinedEach ts ↔ ∀ t ∈ ts, t.Kept

abbrev MirrorsPairs (ps qs : List (Tree × Tree)) : Prop :=
  unlinedPairs ps = unlinedPairs qs ↔ ∀ q ∈ qs, q.1.Kept ∧ q.2.Kept

end Tree
open Baby.Tree

theorem mirrorsNode {e t : Tree} (other : t.callKeyed = false)
    (parts : e.unlined = t.unlined ↔ ∀ u ∈ t.parts, u.Kept) : Mirrors e t := by
  rw [Mirrors, keptIff, parts]
  simp [other]

theorem mirrorsCons {e t : Tree} {es ts : List Tree} (first : Mirrors e t) (rest : MirrorsEach es ts) :
    MirrorsEach (e :: es) (t :: ts) := by
  simp only [MirrorsEach, unlinedEach, List.cons.injEq, List.forall_mem_cons, first, rest]

theorem mirrorsPair {k v k' v' : Tree} {ps qs : List (Tree × Tree)} (key : Mirrors k k')
    (value : Mirrors v v') (rest : MirrorsPairs ps qs) :
    MirrorsPairs ((k, v) :: ps) ((k', v') :: qs) := by
  simp only [MirrorsPairs, unlinedPairs, List.cons.injEq, Prod.mk.injEq, List.forall_mem_cons, key, value, rest]

def Short (ts : List Token) : Prop :=
  ∀ tok ∈ ts, tok.kind = .int → tok.text.toList.length ≤ Oversize.limit

@[simp] theorem shortNil : Short [] := by simp [Short]

@[simp] theorem shortCons (tok : Token) (ts : List Token) :
    Short (tok :: ts) ↔ (tok.kind = .int → tok.text.toList.length ≤ Oversize.limit) ∧ Short ts :=
  List.forall_mem_cons

@[simp] theorem shortAppend (ts us : List Token) : Short (ts ++ us) ↔ Short ts ∧ Short us :=
  List.forall_mem_append

structure Reads (t : Tree) (ts : List Token) : Prop where
  short : Short ts
  operand : ∃ e, Mirrors e t ∧ ∀ level next, level < .call → Derives (.operand level e) ts next
  key : ∀ target us (tok : Token), tok.kind = .sign .dot →
    Derives (.operand .lowest target) us (.sign .dot) →
      ∃ e, (∀ next, Derives (.operand .lowest e) (us ++ tok :: ts) next) ∧
        (t.isCall = true ∧ e.isCall = true ∨
          t.isCall = false ∧ ∃ k, Mirrors k t ∧ e = .dot target k tok.line)

structure ReadsAs {α : Type} (phrase : α → Phrase) (mirrors : α → Prop) (before : Kind → Prop)
    (ts : List Token) : Prop where
  short : Short ts
  derived : ∃ a, mirrors a ∧ ∀ next, before next → Derives (phrase a) ts next

abbrev ReadsItems (es : List Tree) : List Token → Prop :=
  ReadsAs .items (MirrorsEach · es) fun next => next.precedence ≤ .lowest

abbrev ReadsList (close : Sign) (es : List Tree) : List Token → Prop :=
  ReadsAs (.list close) (MirrorsEach · es) fun _ => True

abbrev ReadsPairs (ps : List (Tree × Tree)) : List Token → Prop :=
  ReadsAs .pairs (MirrorsPairs · ps) fun _ => True

abbrev ReadsStatement (t : Tree) : List Token → Prop :=
  ReadsAs .statement (Mirrors · t) fun _ => True

abbrev ReadsBody (body : List Tree) : List Token → Prop :=
  ReadsAs .statements (MirrorsEach · body) fun next => next = .eof

theorem dotHighest (k : Kind) : k.precedence ≤ .dot := by
  cases k with
  | sign s => cases s <;> decide
  | keyword _ | int | string | ident | illegal | eof => exact Nat.le_add_left 1 9

theorem Reads.opening {t e : Tree} {ts : List Token} (short : Short ts) (same : Mirrors e t)
    (other : t.isCall = false) (opens : ∀ next, Derives (.opening e) ts next) : Reads t ts where
  short := short
  operand := ⟨e, same, fun _ next _ => .opened (opens next)⟩
  key target us tok kind left := by
    refine ⟨.dot target e tok.line, fun next => ?_, .inr ⟨other, e, same, rfl⟩⟩
    exact .dot (kind ▸ left) kind (by decide) (.expression (.opened (opens next)) (dotHighest next))

theorem Reads.expression {t : Tree} {ts : List Token} (h : Reads t ts) :
    ∃ e, Mirrors e t ∧ ∀ level next, level < .call → next.precedence ≤ level →
      Derives (.expression level e) ts next := by
  obtain ⟨e, same, derived⟩ := h.operand
  exact ⟨e, same, fun level next low greedy => .expression (derived level next low) greedy⟩

theorem Reads.lowest {t : Tree} {ts : List Token} (h : Reads t ts) :
    ∃ e, Mirrors e t ∧ ∀ next, next.precedence ≤ .lowest → Derives (.expression .lowest e) ts next := by
  obtain ⟨e, same, derived⟩ := h.expression
  exact ⟨e, same, fun next low => derived .lowest next (by decide) low⟩

/-! Expressions -/

theorem Reads.atom {t e : Tree} {tok : Token} (atom : Atom tok e) (same : e.unlined = t.unlined)
    (short : tok.kind = .int → tok.text.toList.length ≤ Oversize.limit) (other : t.isCall = false)
    (leaf : t.parts = []) : Reads t [tok] := by
  refine .opening (by simpa using short) ?_ other fun _ => .atom atom
  have kept : t.Kept := by
    rw [keptIff, leaf]
    cases t <;> simp_all [Tree.parts, callKeyed]
  exact iff_of_true same kept

theorem Reads.group {t e : Tree} {ts : List Token} {start close : Token} (short : Short ts)
    (same : Mirrors e t) (other : t.isCall = false) (started : start.kind = .sign .lparen)
    (inner : Derives (.operand .lowest e) ts (.sign .rparen)) (closed : close.kind = .sign .rparen) :
    Reads t (start :: (ts ++ [close])) := by
  refine .opening ?_ same other fun _ => .group started (.expression inner (by decide)) closed
  simpa [started, closed] using short

theorem Reads.unary {t : Tree} {ts : List Token} {start tok close : Token} {sign : Sign} {op : Op}
    {line : Nat} (started : start.kind = .sign .lparen) (kind : tok.kind = .sign sign)
    (operator : sign.unaryOp? = some op) (h : Reads t ts) (closed : close.kind = .sign .rparen) :
    Reads (.unary op t line) (start :: (tok :: ts ++ [close])) := by
  obtain ⟨e, same, derived⟩ := h.expression
  have inner := derived .unary (.sign .rparen) (by decide) (by decide)
  refine .group (by simp [kind, h.short]) ?_ rfl started (.opened (.unary kind operator inner)) closed
  refine mirrorsNode rfl ?_
  simp [Tree.parts, same]

theorem binaryBetween {sign : Sign} {op : Op} (h : sign.binaryOp? = some op) :
    .lowest < sign.precedence ∧ sign.precedence < .call := by
  cases sign <;> simp [Sign.binaryOp?] at h <;> decide

theorem Reads.binary {l r : Tree} {ts us : List Token} {start tok close : Token} {sign : Sign} {op : Op}
    {line : Nat} (started : start.kind = .sign .lparen) (left : Reads l ts)
    (kind : tok.kind = .sign sign) (operator : sign.binaryOp? = some op) (right : Reads r us)
    (closed : close.kind = .sign .rparen) :
    Reads (.binary op l r line) (start :: ((ts ++ tok :: us) ++ [close])) := by
  obtain ⟨low, high⟩ := binaryBetween operator
  obtain ⟨e, same, derived⟩ := left.operand
  obtain ⟨e', same', derived'⟩ := right.expression
  have inner := derived' sign.precedence (.sign .rparen) high (Nat.le_of_lt low)
  refine .group (by simp [kind, left.short, right.short]) ?_ rfl started
    (.binary (derived .lowest tok.kind (by decide)) kind operator low inner) closed
  refine mirrorsNode rfl ?_
  simp [Tree.parts, same, same']

theorem Reads.index {t place : Tree} {ts us : List Token} {start tok stop close : Token} {line : Nat}
    (started : start.kind = .sign .lparen) (target : Reads t ts) (kind : tok.kind = .sign .lbracket)
    (inside : Reads place us) (stopped : stop.kind = .sign .rbracket)
    (closed : close.kind = .sign .rparen) :
    Reads (.index t place line) (start :: ((ts ++ tok :: (us ++ [stop])) ++ [close])) := by
  obtain ⟨e, same, derived⟩ := target.operand
  obtain ⟨e', same', derived'⟩ := inside.lowest
  have inner := derived' (.sign .rbracket) (Nat.le_refl _)
  refine .group (by simp [kind, stopped, target.short, inside.short]) ?_ rfl started
    (.index (derived .lowest tok.kind (by decide)) kind (by decide) inner stopped) closed
  refine mirrorsNode rfl ?_
  simp [Tree.parts, same, same']

theorem Reads.dot {t key : Tree} {ts us : List Token} {start tok close : Token} {line : Nat}
    (started : start.kind = .sign .lparen) (target : Reads t ts) (kind : tok.kind = .sign .dot)
    (name : Reads key us) (closed : close.kind = .sign .rparen) :
    Reads (.dot t key line) (start :: ((ts ++ tok :: us) ++ [close])) := by
  obtain ⟨l, same, derived⟩ := target.operand
  obtain ⟨e, derived', shape⟩ := name.key l ts tok kind (derived .lowest _ (by decide))
  refine .group (by simp [kind, target.short, name.short]) ?_ rfl started (derived' _) closed
  cases shape with
  | inl called =>
    obtain ⟨keyed, called⟩ := called
    have differs : e.unlined ≠ (Tree.dot t key line).unlined := by
      cases e <;> simp_all [isCall, unlined]
    rw [Mirrors, keptIff]
    exact iff_of_false differs (by simp [callKeyed, keyed])
  | inr plain =>
    obtain ⟨keyed, k, same', rfl⟩ := plain
    refine mirrorsNode keyed ?_
    simp [Tree.parts, same, same']

theorem Reads.array {es : List Tree} {ts : List Token} {start : Token} {line : Nat}
    (started : start.kind = .sign .lbracket) (h : ReadsList .rbracket es ts) :
    Reads (.array es line) (start :: ts) := by
  obtain ⟨es', same, derived⟩ := h.derived
  refine .opening (by simp [started, h.short]) ?_ rfl fun next => .array started (derived next trivial)
  refine mirrorsNode rfl ?_
  simp [Tree.parts, same]

theorem Reads.hash {ps : List (Tree × Tree)} {ts : List Token} {start : Token} {line : Nat}
    (started : start.kind = .sign .lbrace) (h : ReadsPairs ps ts) :
    Reads (.hash ps line) (start :: ts) := by
  obtain ⟨ps', same, derived⟩ := h.derived
  refine .opening (by simp [started, h.short]) ?_ rfl fun next => .hash started (derived next trivial)
  refine mirrorsNode rfl ?_
  simp only [unlined, Tree.parts, Tree.hash.injEq, and_true, same, List.forall_mem_append,
    List.forall_mem_map, forall_and]

theorem Reads.call {f : Tree} {args : List Tree} {ts us : List Token} {tok : Token} {line : Nat}
    (callee : Reads f ts) (kind : tok.kind = .sign .lparen) (h : ReadsList .rparen args us) :
    Reads (.call f args line) (ts ++ tok :: us) := by
  obtain ⟨args', same, derived⟩ := h.derived
  refine ⟨by simp [kind, callee.short, h.short], ?_, fun target vs dot keyed left => ?_⟩
  · obtain ⟨e, same', derived'⟩ := callee.operand
    refine ⟨.call e args' tok.line, ?_, fun level next low =>
      .call (derived' level tok.kind low) kind low (derived next trivial)⟩
    refine mirrorsNode rfl ?_
    simp [Tree.parts, same, same']
  · obtain ⟨e, derived', _⟩ := callee.key target vs dot keyed left
    refine ⟨.call e args' tok.line, fun next => ?_, .inl ⟨rfl, rfl⟩⟩
    have whole := Derives.call (derived' tok.kind) kind (by decide) (derived next trivial)
    simpa using whole

/-! Lists -/

theorem readsLastItem {e : Tree} {ts : List Token} (h : Reads e ts) : ReadsItems [e] ts := by
  obtain ⟨e', same, derived⟩ := h.lowest
  refine ⟨h.short, [e'], mirrorsCons same (by simp [MirrorsEach]), fun next low => ?_⟩
  exact .lastItem (derived next low)

theorem readsMoreItems {e : Tree} {es : List Tree} {ts us : List Token} {comma : Token}
    (h : Reads e ts) (separated : comma.kind = .sign .comma) (rest : ReadsItems es us) :
    ReadsItems (e :: es) (ts ++ comma :: us) := by
  obtain ⟨e', same, derived⟩ := h.lowest
  obtain ⟨es', same', derived'⟩ := rest.derived
  refine ⟨by simp [separated, h.short, rest.short], e' :: es', mirrorsCons same same', fun next low => ?_⟩
  exact .moreItems (derived _ (Nat.le_refl _)) separated (derived' next low)

theorem readsNoItems {close : Sign} {tok : Token} (closed : tok.kind = .sign close) :
    ReadsList close [] [tok] :=
  ⟨by simp [closed], [], by simp [MirrorsEach], fun _ _ => .noItems closed⟩

theorem readsSomeItems {close : Sign} {es : List Tree} {ts : List Token} {tok : Token}
    (low : close.precedence ≤ .lowest) (h : ReadsItems es ts) (closed : tok.kind = .sign close) :
    ReadsList close es (ts ++ [tok]) := by
  obtain ⟨es', same, derived⟩ := h.derived
  refine ⟨by simp [closed, h.short], es', same, fun next _ => ?_⟩
  exact .someItems (derived (.sign close) low) closed

theorem readsNoPairs {tok : Token} (closed : tok.kind = .sign .rbrace) : ReadsPairs [] [tok] :=
  ⟨by simp [closed], [], by simp [MirrorsPairs], fun _ _ => .noPairs closed⟩

theorem readsLastPair {k v : Tree} {ts us : List Token} {colon tok : Token} (key : Reads k ts)
    (separated : colon.kind = .sign .colon) (value : Reads v us) (closed : tok.kind = .sign .rbrace) :
    ReadsPairs [(k, v)] (ts ++ colon :: (us ++ [tok])) := by
  obtain ⟨k', same, derived⟩ := key.lowest
  obtain ⟨v', same', derived'⟩ := value.lowest
  refine ⟨by simp [separated, closed, key.short, value.short], [(k', v')],
    mirrorsPair same same' (by simp [MirrorsPairs]), fun next _ => ?_⟩
  exact .lastPair (derived _ (Nat.le_refl _)) separated (derived' _ (Nat.le_refl _)) closed

theorem readsMorePairs {k v : Tree} {ps : List (Tree × Tree)} {ts us vs : List Token}
    {colon comma : Token} (key : Reads k ts) (separated : colon.kind = .sign .colon)
    (value : Reads v us) (continued : comma.kind = .sign .comma) (rest : ReadsPairs ps vs) :
    ReadsPairs ((k, v) :: ps) (ts ++ colon :: (us ++ comma :: vs)) := by
  obtain ⟨k', same, derived⟩ := key.lowest
  obtain ⟨v', same', derived'⟩ := value.lowest
  obtain ⟨ps', same'', derived''⟩ := rest.derived
  refine ⟨by simp [separated, continued, key.short, value.short, rest.short], (k', v') :: ps',
    mirrorsPair same same' same'', fun next _ => ?_⟩
  exact .morePairs (derived _ (Nat.le_refl _)) separated (derived' _ (Nat.le_refl _)) continued
    (derived'' next trivial)

/-! Statements -/

theorem assignsProper {k : Kind} {op : Op} (h : k.assignOp? = some op) : k ≠ .int := by
  rintro rfl
  cases h

theorem Reads.ended {t : Tree} {ts : List Token} {stop : Token} (h : Reads t ts)
    (stopped : stop.kind = .sign .semicolon) :
    ∃ e, Mirrors e t ∧ ∀ next, Derives (.expression .lowest e) ts (following [stop] next) ∧
      Ends [stop] next := by
  obtain ⟨e, same, derived⟩ := h.lowest
  have value := derived (.sign .semicolon) (Nat.le_refl _)
  rw [← stopped] at value
  exact ⟨e, same, fun next => ⟨value, .inl ⟨stop, stopped, rfl⟩⟩⟩

theorem readsDefine {t : Tree} {ts : List Token} {tok name sign stop : Token} {op : Op} {line : Nat}
    (kind : tok.kind = .keyword .kLet) (named : name.kind = .ident)
    (operator : sign.kind.assignOp? = some op) (h : Reads t ts) (stopped : stop.kind = .sign .semicolon) :
    ReadsStatement (.define name.text op t line) (tok :: name :: sign :: (ts ++ [stop])) := by
  obtain ⟨e, same, derived⟩ := h.ended stopped
  refine ⟨by simp [kind, named, stopped, assignsProper operator, h.short], .define name.text op e tok.line,
    mirrorsNode rfl ?_, fun next _ => .define kind named operator (derived next).1 (derived next).2⟩
  simp [Tree.parts, same]

theorem readsAssign {t : Tree} {ts : List Token} {name sign stop : Token} {op : Op} {line : Nat}
    (named : name.kind = .ident) (operator : sign.kind.assignOp? = some op) (h : Reads t ts)
    (stopped : stop.kind = .sign .semicolon) :
    ReadsStatement (.assign name.text op t line) (name :: sign :: (ts ++ [stop])) := by
  obtain ⟨e, same, derived⟩ := h.ended stopped
  refine ⟨by simp [named, stopped, assignsProper operator, h.short], .assign name.text op e name.line,
    mirrorsNode rfl ?_, fun next _ => .assign named operator (derived next).1 (derived next).2⟩
  simp [Tree.parts, same]

theorem readsReturn {t : Tree} {ts : List Token} {tok stop : Token} {line : Nat}
    (kind : tok.kind = .keyword .kReturn) (h : Reads t ts) (stopped : stop.kind = .sign .semicolon) :
    ReadsStatement (.ret t line) (tok :: (ts ++ [stop])) := by
  obtain ⟨e, same, derived⟩ := h.ended stopped
  refine ⟨by simp [kind, stopped, h.short], .ret e tok.line, mirrorsNode rfl ?_,
    fun next _ => .returnValue kind (derived next).1 (derived next).2⟩
  simp [Tree.parts, same]

theorem readsNoStatements : ReadsBody [] [] :=
  ⟨by simp, [], by simp [MirrorsEach], fun _ _ => .noStatements⟩

theorem readsLastStatement {t : Tree} {ts : List Token} {line : Nat} (h : Reads t ts) :
    ReadsBody [.statement t line] ts := by
  obtain ⟨e, same, derived⟩ := h.lowest
  have value := derived .eof (Nat.le_refl _)
  obtain ⟨tok, us, rfl, _⟩ := derivesStart value (by simp)
  have bare : Derives (.statement (.statement e tok.line)) (tok :: us ++ []) .eof := .bare value (.inr rfl)
  have mirrors : Mirrors (.statement e tok.line) (.statement t line) := by
    refine mirrorsNode rfl ?_
    simp [Tree.parts, same]
  refine ⟨h.short, [.statement e tok.line], mirrorsCons mirrors (by simp [MirrorsEach]), ?_⟩
  rintro _ rfl
  simpa using Derives.someStatements bare .noStatements

theorem readsMoreStatements {t : Tree} {body : List Tree} {ts us : List Token} (h : ReadsStatement t ts)
    (rest : ReadsBody body us) : ReadsBody (t :: body) (ts ++ us) := by
  obtain ⟨e, same, derived⟩ := h.derived
  obtain ⟨body', same', derived'⟩ := rest.derived
  exact ⟨by simp [h.short, rest.short], e :: body', mirrorsCons same same',
    fun next last => .someStatements (derived _ trivial) (derived' next last)⟩

theorem readsProgram {body : List Tree} {ts : List Token} {finish : Token} (h : ReadsBody body ts)
    (ended : finish.kind = .eof) (line : Nat) :
    ∃ tree, parseTokens (ts ++ [finish]) = .ok ⟨tree, []⟩ ∧ Mirrors tree (.program body line) := by
  obtain ⟨body', same, derived⟩ := h.derived
  refine ⟨.program body' (ts.headD finish).line, ?_, mirrorsNode rfl ?_⟩
  · have taken := programTaken (c := ⟨ts, finish, []⟩) (List.append_nil ts).symm ended h.short
      ⟨body', derived _ ended, rfl⟩
    unfold parseTokens
    rw [Cursor.ofTokensConcat, taken]
    rfl
  · simp [Tree.parts, same]

end Baby
