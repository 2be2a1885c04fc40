import Baby.Proofs.GrammarSound

/-! What the grammar derives is read, without an error and to the same tree. -/
namespace Baby
open Baby.Parser

/-! First tokens -/

def Phrase.starts (k : Kind) : Phrase → Bool
  | expression .. | operand .. | opening _ | items _ => (Forms.standardOpening? k).isSome
  | list close _ => k = .sign close || (Forms.standardOpening? k).isSome
  | pairs _ => k = .sign .rbrace || (Forms.standardOpening? k).isSome
  | names _ => k = .ident
  | params _ => k = .ident || k = .sign .rparen
  | condition _ => k = .sign .lparen
  | block _ => k = .sign .lbrace
  | statement _ => k = .keyword .kLet || k = .keyword .kReturn || (Forms.standardOpening? k).isSome
  | statements _ => true

theorem atomOpens {tok : Token} {e : Tree} (h : Atom tok e) :
    (Forms.standardOpening? tok.kind).isSome = true := by
  cases h <;> simp [*, Forms.standardOpening?]

theorem unaryOpens {sign : Sign} {op : Op} (h : sign.unaryOp? = some op) :
    (Forms.standardOpening? (.sign sign)).isSome = true := by
  cases sign <;> simp [Sign.unaryOp?] at h <;> rfl

theorem derivesStart {phrase : Phrase} {ts : List Token} {next : Kind} (h : Derives phrase ts next)
    (whole : ∀ body, phrase ≠ .statements body) :
    ∃ tok us, ts = tok :: us ∧ phrase.starts tok.kind = true := by
  induction h with
  | expression _ _ ih => exact ih (by simp)
  | opened _ ih => exact ih (by simp)
  | binary _ _ _ _ _ ih _ | call _ _ _ _ ih _ | index _ _ _ _ _ ih _ | dot _ _ _ _ ih _ =>
    obtain ⟨tok, us, rfl, starts⟩ := ih (by simp)
    exact ⟨tok, _, rfl, starts⟩
  | atom atom => exact ⟨_, _, rfl, atomOpens atom⟩
  | unary kind operator _ _ => exact ⟨_, _, rfl, by rw [kind]; exact unaryOpens operator⟩
  | group kind | array kind | hash kind | cond kind | condElse kind | loop kind | function kind =>
    exact ⟨_, _, rfl, by simp [Phrase.starts, kind, Forms.standardOpening?]⟩
  | lastItem _ ih => exact ih (by simp)
  | moreItems _ _ _ ih _ =>
    obtain ⟨tok, us, rfl, starts⟩ := ih (by simp)
    exact ⟨tok, _, rfl, starts⟩
  | noItems closed | noPairs closed | noParams closed =>
    exact ⟨_, _, rfl, by simp [Phrase.starts, closed]⟩
  | someItems _ _ ih =>
    obtain ⟨tok, us, rfl, starts⟩ := ih (by simp)
    exact ⟨tok, _, rfl, by simp_all [Phrase.starts]⟩
  | lastPair _ _ _ _ ih _ | morePairs _ _ _ _ _ ih _ _ =>
    obtain ⟨tok, us, rfl, starts⟩ := ih (by simp)
    exact ⟨tok, _, rfl, by simp_all [Phrase.starts]⟩
  | lastName kind | moreNames kind | condition kind | block kind =>
    exact ⟨_, _, rfl, by simp [Phrase.starts, kind]⟩
  | someParams _ _ ih =>
    obtain ⟨tok, us, rfl, starts⟩ := ih (by simp)
    exact ⟨tok, _, rfl, by simp_all [Phrase.starts]⟩
  | noStatements | someStatements => exact absurd rfl (whole _)
  | define kind | returnNull kind | returnValue kind =>
    exact ⟨_, _, rfl, by simp [Phrase.starts, kind]⟩
  | assign named => exact ⟨_, _, rfl, by simp [Phrase.starts, named, Forms.standardOpening?]⟩
  | bare _ _ ih =>
    obtain ⟨tok, us, same, starts⟩ := ih (by simp)
    cases same
    exact ⟨_, _, rfl, by simp_all [Phrase.starts]⟩

theorem followingAppend (ts us : List Token) (next : Kind) :
    following (ts ++ us) next = following ts (following us next) := by
  cases ts <;> rfl

theorem binaryNoAssign {sign : Sign} {op : Op} (h : sign.binaryOp? = some op) :
    (Kind.sign sign).assignOp? = none := by
  cases sign <;> simp [Sign.binaryOp?] at h <;> rfl

theorem derivesNoAssign {phrase : Phrase} {ts : List Token} {next : Kind} (h : Derives phrase ts next)
    {tok : Token} {us : List Token} (start : ts = tok :: us) (named : tok.kind = .ident)
    (last : next.assignOp? = none) :
    match phrase with
    | .expression .. | .operand .. | .opening _ => (following us next).assignOp? = none
    | _ => True := by
  induction h generalizing tok us with
  | expression _ _ ih => exact ih start named last
  | opened _ ih => exact ih start named last
  | @binary _ ts _ _ _ _ mid _ _ left kind operator _ _ ih _ =>
    obtain ⟨first, rest, rfl, _⟩ := derivesStart left nofun
    cases start
    have h := ih rfl named (by rw [kind]; exact binaryNoAssign operator)
    simpa [followingAppend, following] using h
  | call left kind _ _ ih _ | index left kind _ _ _ ih _ | dot left kind _ _ ih _ =>
    obtain ⟨first, rest, rfl, _⟩ := derivesStart left nofun
    cases start
    have h := ih rfl named (by rw [kind]; rfl)
    simpa [followingAppend, following] using h
  | atom _ => cases start; exact last
  | group kind | unary kind | array kind | hash kind | cond kind | condElse kind | loop kind
  | function kind => cases start; simp [kind] at named
  | _ => trivial

/-! Runs without an error -/

section
variable {α β : Type} {c c₁ : Cursor} {a : α}

theorem runBind {p : Parser α} {f : α → Parser β} (h : p.run c = .ok (a, c₁)) :
    (p >>= f).run c = (f a).run c₁ := by
  rw [StateT.run_bind, h]
  rfl

theorem runCurr (f : Token → Parser β) : (curr >>= f).run c = (f c.curr).run c := rfl

theorem runPeek (f : Token → Parser β) : (peek >>= f).run c = (f c.peek).run c := rfl

theorem runRemaining (f : Nat → Parser β) : (remaining >>= f).run c = (f c.ahead.length).run c := rfl

theorem runAdvance (f : Unit → Parser β) : (advance >>= f).run c = (f ()).run c.advance := rfl

theorem runPeekIs (kind : Kind) (f : Bool → Parser β) :
    (peekIs kind >>= f).run c = (f (c.peek.kind = kind)).run c := rfl

theorem runExpect {kind : Kind} {f : Bool → Parser β} (h : c.peek.kind = kind) :
    (expect kind >>= f).run c = (f true).run c.advance := by
  simp [expect, peekIs, Parser.advance, h]

end

/- At fewer than `bound` tokens the reader is one of the nested readers of expressions, nested deep
enough for the tokens that are left. -/
def Nested (bound : Nat) (expr : Reader) : Prop :=
  ∀ level c, c.ahead.length < bound → ∃ n, c.ahead.length < n ∧
    (expr level).run c = (expressionWithin .standard n level).run c

theorem nestedWithin (n : Nat) : Nested n (expressionWithin .standard n) :=
  fun _ _ short => ⟨n, short, rfl⟩

theorem nestedExpression (bound : Nat) : Nested bound (expression .standard) :=
  fun _ _ _ => ⟨_, Nat.lt_succ_self _, rfl⟩

def Taken : Phrase → List Token → Kind → Prop
  | .expression level e, ts, next => next ≠ .keyword .kElse →
      ∀ ⦃bound : Nat⦄ ⦃expr : Reader⦄, Nested bound expr →
      ∀ ⦃c : Cursor⦄ ⦃l l'⦄, Spans l ts l' → (c.on l').peek.kind = next → l.length < bound →
        (expr level).run (c.on l) = .ok (some e, c.on l')
  -- However the operand is extended, reading from its start comes to the same.
  | .operand level e, ts, next => next ≠ .keyword .kElse →
      ∀ ⦃bound : Nat⦄ ⦃expr : Reader⦄, Nested bound expr →
      ∀ ⦃c : Cursor⦄ ⦃l l'⦄, Spans l ts l' → (c.on l').peek.kind = next → l.length ≤ bound →
        ∀ ⦃r : Except Halt (Option Tree × Cursor)⦄,
          (∀ k, l'.length ≤ k → (extend .standard expr level k e).run (c.on l') = r) →
          (oneExpression .standard expr level).run (c.on l) = r
  | .opening e, ts, next => next ≠ .keyword .kElse →
      ∀ ⦃bound : Nat⦄ ⦃expr : Reader⦄, Nested bound expr →
      ∀ ⦃c : Cursor⦄ ⦃l l'⦄, Spans l ts l' → (c.on l').peek.kind = next → l.length ≤ bound →
        ∃ form, Forms.standardOpening? (c.on l).curr.kind = some form ∧
          (opening expr (c.on l).curr form).run (c.on l) = .ok (some e, c.on l')
  | .items es, ts, next => next ≠ .keyword .kElse → next ≠ .sign .comma →
      ∀ ⦃bound : Nat⦄ ⦃expr : Reader⦄, Nested bound expr →
      ∀ ⦃c : Cursor⦄ ⦃l l'⦄, Spans l ts l' → (c.on l').peek.kind = next → l.length < bound →
        ∀ ⦃k⦄, l.length < k → (items expr k).run (c.on l) = .ok (es.map some, c.on l')
  -- The parts of an opening are entered on the token before them.
  | .list close es, ts, _ => close = .rparen ∨ close = .rbracket →
      ∀ ⦃bound : Nat⦄ ⦃expr : Reader⦄, Nested bound expr →
      ∀ ⦃c : Cursor⦄ ⦃l l'⦄ (tok), Spans l ts l' → l.length < bound →
        (expressions expr close).run (c.on (tok :: l)) = .ok (some es, c.on l')
  | .pairs ps, ts, _ =>
      ∀ ⦃bound : Nat⦄ ⦃expr : Reader⦄, Nested bound expr →
      ∀ ⦃c : Cursor⦄ ⦃l l'⦄ (tok), Spans l ts l' → l.length < bound →
        ∀ ⦃k⦄, l.length < k → (pairs expr k).run (c.on (tok :: l)) = .ok (some ps, c.on l')
  | .names others, ts, _ =>
      ∀ ⦃c : Cursor⦄ ⦃l l'⦄ (tok), Spans l ts l' →
        ∀ ⦃k names⦄, l.length < k → (names ++ others).Nodup →
          (parameters k names).run (c.on (tok :: l)) = .ok (some (names ++ others), c.on l')
  | .params names, ts, _ =>
      ∀ ⦃c : Cursor⦄ ⦃l l'⦄ (tok), Spans l ts l' →
        parameterList.run (c.on (tok :: l)) = .ok (some names, c.on l')
  | .condition e, ts, next => next = .sign .lbrace →
      ∀ ⦃bound : Nat⦄ ⦃expr : Reader⦄, Nested bound expr →
      ∀ ⦃c : Cursor⦄ ⦃l l'⦄ (tok), Spans l ts l' → (c.on l').peek.kind = next → l.length < bound →
        (condition expr).run (c.on (tok :: l)) = .ok (some e, c.on (l'.drop 1))
  | .block t, ts, _ =>
      ∀ ⦃bound : Nat⦄ ⦃expr : Reader⦄, Nested bound expr →
      ∀ ⦃c : Cursor⦄ ⦃l l'⦄, Spans l ts l' → l.length ≤ bound →
        (block expr).run (c.on l) = .ok (t, c.on l')
  | .statement t, ts, next => next ≠ .keyword .kElse → next ≠ .sign .semicolon →
      next.assignOp? = none →
      ∀ ⦃bound : Nat⦄ ⦃expr : Reader⦄, Nested bound expr →
      ∀ ⦃c : Cursor⦄ ⦃l l'⦄, Spans l ts l' → (c.on l').peek.kind = next → l.length < bound →
        (statement expr).run (c.on l) = .ok (some t, c.on l')
  | .statements body, ts, next => next = .sign .rbrace ∨ next = .eof →
      ∀ ⦃bound : Nat⦄ ⦃expr : Reader⦄, Nested bound expr →
      ∀ ⦃ends : Kind → Bool⦄, (∀ k, ends k = true → k = .sign .rbrace ∨ k = .eof) →
        ends next = true →
      ∀ ⦃c : Cursor⦄ ⦃rest⦄, (c.on rest).curr.kind = next → (ts ++ rest).length < bound →
        ∀ ⦃k⦄, (ts ++ rest).length ≤ k →
          (statements expr ends k).run (c.on (ts ++ rest)) = .ok (body, c.on rest)

namespace Spans
variable {l l' ts us : List Token} {tok : Token}

theorem uncons (h : Spans l (tok :: ts) l') (more : ts ≠ []) : ∃ m, l = tok :: m ∧ Spans m ts l' := by
  cases h with
  | one => exact absurd rfl more
  | more tok tail => exact ⟨_, rfl, tail⟩

theorem first (h : Spans l (tok :: ts) l') : ∃ m, l = tok :: m := by
  cases h <;> exact ⟨_, rfl⟩

theorem cutCons (h : Spans l (ts ++ tok :: us) l') (some : ts ≠ []) (more : us ≠ []) :
    ∃ l₁ m, Spans l ts l₁ ∧ l₁.drop 1 = tok :: m ∧ Spans m us l' := by
  obtain ⟨l₁, first, second⟩ := h.cut some (by simp)
  obtain ⟨m, same, tail⟩ := second.uncons more
  exact ⟨l₁, m, first, same, tail⟩

theorem cutLast (h : Spans l (ts ++ [tok]) l') (some : ts ≠ []) :
    ∃ l₁ rest, Spans l ts l₁ ∧ l₁.drop 1 = l' ∧ l' = tok :: rest := by
  obtain ⟨l₁, first, second⟩ := h.cut some (by simp)
  generalize same : l₁.drop 1 = d at second
  cases second with
  | one tok rest => exact ⟨l₁, rest, first, same, rfl⟩
  | more tok tail => cases tail

theorem length (h : Spans l ts l') : l'.length ≤ l.length := h.suffix.length_le

theorem lengthDrop (h : Spans l ts l') : (l'.drop 1).length < l.length := by
  have shorter := h.length
  obtain ⟨tok, rest, rfl, _⟩ := h.split
  rw [List.length_cons] at shorter
  exact Nat.lt_of_succ_le shorter

end Spans

theorem peekDrop {c : Cursor} {l m : List Token} {tok : Token} (h : l.drop 1 = tok :: m) :
    (c.on l).peek = tok := by
  simp [Cursor.peek, h]

/-! Expressions -/

section
variable {level : Precedence} {e left right : Tree} {ts us : List Token} {next : Kind} {tok : Token}

theorem extendStops {expr : Reader} {c : Cursor} (greedy : c.peek.kind.precedence ≤ level) (k : Nat) :
    (extend .standard expr level k e).run c = .ok (some e, c) := by
  cases k with
  | zero => rfl
  | succ k =>
    unfold extend
    rw [runPeek, if_pos (by simp [greedy])]
    rfl

theorem extendGoesOn {expr : Reader} {c c₁ c₂ : Cursor} {form : Continuation} (here : c.peek = tok)
    (tighter : level < tok.kind.precedence) (goes : Forms.standardContinuation? tok.kind = some form)
    (step : c.advance = c₁) (run : (continuation expr tok left form).run c₁ = .ok (some e, c₂))
    (k : Nat) :
    (extend .standard expr level (k + 1) left).run c = (extend .standard expr level k e).run c₂ := by
  have other : tok.kind ≠ .sign .semicolon := by
    intro kind
    rw [kind] at goes
    cases goes
  rw [extend, runPeek, here, if_neg (by simp [other, tighter])]
  simp only [Forms.standard, goes]
  rw [runAdvance, step, runBind run]

theorem takenExpression (h : Taken (.operand level e) ts next) (greedy : next.precedence ≤ level) :
    Taken (.expression level e) ts next := by
  intro noElse bound expr nested c l l' span ahead short
  obtain ⟨n, enough, same⟩ := nested level (c.on l) short
  rw [same]
  cases n with
  | zero => exact absurd enough (Nat.not_lt_zero _)
  | succ n =>
    exact h noElse (nestedWithin n) span ahead (Nat.le_of_lt_succ enough)
      fun k _ => extendStops (ahead ▸ greedy) k

theorem takenOpened (h : Taken (.opening e) ts next) : Taken (.operand level e) ts next := by
  intro noElse bound expr nested c l l' span ahead short r rest
  obtain ⟨form, opens, run⟩ := h noElse nested span ahead short
  unfold oneExpression
  rw [runCurr]
  simp only [Forms.standard, opens]
  rw [runBind run, runRemaining]
  exact rest _ (Nat.le_refl _)

theorem takenContinued {form : Continuation} (start : ts ≠ []) (more : us ≠ [])
    (h : Taken (.operand level left) ts tok.kind) (tighter : level < tok.kind.precedence)
    (goes : Forms.standardContinuation? tok.kind = some form)
    (run : next ≠ .keyword .kElse → ∀ ⦃bound : Nat⦄ ⦃expr : Reader⦄, Nested bound expr →
      ∀ ⦃c : Cursor⦄ ⦃m l'⦄, Spans m us l' → (c.on l').peek.kind = next → m.length < bound →
        (continuation expr tok left form).run (c.on (tok :: m)) = .ok (some e, c.on l')) :
    Taken (.operand level e) (ts ++ tok :: us) next := by
  intro noElse bound expr nested c l l' span ahead short r rest
  obtain ⟨l₁, m, first, same, second⟩ := span.cutCons start more
  have plain : tok.kind ≠ .keyword .kElse := by
    intro kind
    rw [kind] at goes
    cases goes
  have shorter := first.lengthDrop
  rw [same, List.length_cons] at shorter
  refine h plain nested first (by rw [peekDrop same]) short fun k enough => ?_
  have step : (c.on l₁).advance = c.on (tok :: m) := by rw [Cursor.onAdvance, same]
  have less : m.length + 2 ≤ l₁.length := by
    have := congrArg List.length same
    simp at this
    omega
  cases k with
  | zero => omega
  | succ k =>
    rw [extendGoesOn (peekDrop same) tighter goes step (run noElse nested second ahead (by omega))]
    exact rest k (by have := second.length; omega)

theorem binaryContinues {sign : Sign} {op : Op} (h : sign.binaryOp? = some op) :
    Forms.standardContinuation? (.sign sign) = some .binary := by
  cases sign <;> simp [Sign.binaryOp?] at h <;> rfl

theorem unaryOpening {sign : Sign} {op : Op} (h : sign.unaryOp? = some op) :
    Forms.standardOpening? (.sign sign) = some .unary := by
  cases sign <;> simp [Sign.unaryOp?] at h <;> rfl

theorem takenBinary {sign : Sign} {op : Op} (start : ts ≠ []) (more : us ≠ [])
    (h : Taken (.operand level left) ts tok.kind) (kind : tok.kind = .sign sign)
    (operator : sign.binaryOp? = some op) (tighter : level < sign.precedence)
    (value : Taken (.expression sign.precedence right) us next) :
    Taken (.operand level (.binary op left right tok.line)) (ts ++ tok :: us) next := by
  have goes : Forms.standardContinuation? tok.kind = some .binary := by
    rw [kind]
    exact binaryContinues operator
  refine takenContinued start more h (by rw [kind]; exact tighter) goes ?_
  intro noElse bound expr nested c m l' span ahead short
  rw [continuationBinary (by rw [kind]; exact operator), runAdvance, kind]
  exact runBind (value noElse nested span ahead short)

theorem takenCall {args : List Tree} (start : ts ≠ []) (more : us ≠ [])
    (h : Taken (.operand level left) ts tok.kind) (kind : tok.kind = .sign .lparen)
    (tighter : level < .call) (list : Taken (.list .rparen args) us next) :
    Taken (.operand level (.call left args tok.line)) (ts ++ tok :: us) next := by
  refine takenContinued start more h (by rw [kind]; exact tighter) (by rw [kind]; rfl) ?_
  intro _ bound expr nested c m l' span _ short
  unfold continuation
  exact runBind (list (by simp) nested tok span short)

theorem takenIndex {place : Tree} {close : Token} (start : ts ≠ []) (more : us ≠ [])
    (h : Taken (.operand level left) ts tok.kind) (kind : tok.kind = .sign .lbracket)
    (tighter : level < .index) (inner : Taken (.expression .lowest place) us (.sign .rbracket))
    (closed : close.kind = .sign .rbracket) :
    Taken (.operand level (.index left place tok.line)) (ts ++ tok :: (us ++ [close])) next := by
  refine takenContinued start (by simp) h (by rw [kind]; exact tighter) (by rw [kind]; rfl) ?_
  intro _ bound expr nested c m l' span _ short
  obtain ⟨l₁, rest, first, same, rfl⟩ := span.cutLast more
  have ahead : (c.on l₁).peek.kind = .sign .rbracket := by rw [peekDrop same, closed]
  unfold continuation
  rw [runAdvance]
  refine (runBind (inner (by decide) nested first ahead short)).trans ?_
  refine (runExpect ahead).trans ?_
  rw [Cursor.onAdvance, same]
  rfl

theorem takenDot {key : Tree} (start : ts ≠ []) (more : us ≠ [])
    (h : Taken (.operand level left) ts tok.kind) (kind : tok.kind = .sign .dot)
    (tighter : level < .dot) (value : Taken (.expression .dot key) us next) :
    Taken (.operand level (.dot left key tok.line)) (ts ++ tok :: us) next := by
  refine takenContinued start more h (by rw [kind]; exact tighter) (by rw [kind]; rfl) ?_
  intro noElse bound expr nested c m l' span ahead short
  unfold continuation
  rw [runAdvance]
  exact runBind (value noElse nested span ahead short)

/-! Openings -/

theorem takenAfter {form : Opening} (more : ts ≠ [])
    (opens : Forms.standardOpening? tok.kind = some form)
    (run : next ≠ .keyword .kElse → ∀ ⦃bound : Nat⦄ ⦃expr : Reader⦄, Nested bound expr →
      ∀ ⦃c : Cursor⦄ ⦃m l'⦄, Spans m ts l' → (c.on l').peek.kind = next → m.length < bound →
        (opening expr tok form).run (c.on (tok :: m)) = .ok (some e, c.on l')) :
    Taken (.opening e) (tok :: ts) next := by
  intro noElse bound expr nested c l l' span ahead short
  obtain ⟨m, rfl, rest⟩ := span.uncons more
  exact ⟨form, opens, run noElse nested rest ahead short⟩

theorem takenAtom (short : tok.kind = .int → tok.text.toList.length ≤ Oversize.limit)
    (h : Atom tok e) : Taken (.opening e) [tok] next := by
  intro _ bound expr _ c l l' span _ _
  cases span with
  | more tok tail => cases tail
  | one tok rest =>
    rw [Cursor.onCurrCons]
    cases h with
    | integer kind fits =>
      refine ⟨.integer, by rw [kind]; rfl, ?_⟩
      unfold opening integer
      simp only [if_neg (Nat.not_lt.2 (short kind)), if_neg (integerFits.2 fits)]
      rfl
    | _ kind => exact ⟨_, by rw [kind]; rfl, rfl⟩

theorem takenGroup {close : Token} (more : ts ≠ []) (kind : tok.kind = .sign .lparen)
    (inner : Taken (.expression .lowest e) ts (.sign .rparen))
    (closed : close.kind = .sign .rparen) : Taken (.opening e) (tok :: (ts ++ [close])) next := by
  refine takenAfter (by simp) (by rw [kind]; rfl) ?_
  intro _ bound expr nested c m l' span _ short
  obtain ⟨l₁, rest, first, same, rfl⟩ := span.cutLast more
  have ahead : (c.on l₁).peek.kind = .sign .rparen := by rw [peekDrop same, closed]
  unfold opening
  rw [runAdvance]
  refine (runBind (inner (by decide) nested first ahead short)).trans ?_
  refine (runExpect ahead).trans ?_
  rw [Cursor.onAdvance, same]
  rfl

theorem takenUnary {sign : Sign} {op : Op} (more : ts ≠ []) (kind : tok.kind = .sign sign)
    (operator : sign.unaryOp? = some op) (inner : Taken (.expression .unary e) ts next) :
    Taken (.opening (.unary op e tok.line)) (tok :: ts) next := by
  refine takenAfter more (by rw [kind]; exact unaryOpening operator) ?_
  intro noElse bound expr nested c m l' span ahead short
  rw [openingUnary (by rw [kind]; exact operator), runAdvance]
  exact runBind (inner noElse nested span ahead short)

theorem takenArray {es : List Tree} (more : ts ≠ []) (kind : tok.kind = .sign .lbracket)
    (list : Taken (.list .rbracket es) ts next) :
    Taken (.opening (.array es tok.line)) (tok :: ts) next := by
  refine takenAfter more (by rw [kind]; rfl) ?_
  intro _ bound expr nested c m l' span _ short
  unfold opening
  exact runBind (list (by simp) nested tok span short)

theorem takenHash {ps : List (Tree × Tree)} (more : ts ≠ []) (kind : tok.kind = .sign .lbrace)
    (pairs : Taken (.pairs ps) ts next) : Taken (.opening (.hash ps tok.line)) (tok :: ts) next := by
  refine takenAfter more (by rw [kind]; rfl) ?_
  intro _ bound expr nested c m l' span _ short
  unfold opening
  rw [runRemaining]
  exact runBind (pairs nested tok span short (by rw [Cursor.onAhead, List.length_cons]; omega))

theorem takenCondition {close : Token} (more : ts ≠ []) (kind : tok.kind = .sign .lparen)
    (inner : Taken (.expression .lowest e) ts (.sign .rparen))
    (closed : close.kind = .sign .rparen) : Taken (.condition e) (tok :: (ts ++ [close])) next := by
  rintro rfl bound expr nested c l l' tok₀ span ahead short
  obtain ⟨m, rfl, tail⟩ := span.uncons (by simp)
  obtain ⟨l₁, rest, first, same, rfl⟩ := tail.cutLast more
  have ahead₁ : (c.on l₁).peek.kind = .sign .rparen := by rw [peekDrop same, closed]
  have ahead₀ : (c.on (tok₀ :: tok :: m)).peek.kind = .sign .lparen := kind
  have less : m.length < bound := Nat.lt_of_succ_lt short
  unfold condition
  simp only [ifNot]
  refine (runExpect ahead₀).trans ?_
  simp only [if_true]
  rw [runAdvance]
  refine (runBind (inner (by decide) nested first ahead₁ less)).trans ?_
  refine (runExpect ahead₁).trans ?_
  rw [Cursor.onAdvance, same]
  exact runExpect ahead

theorem spanBlock {c : Cursor} {l l' : List Token} (h : Spans (l.drop 1) us l')
    (start : ∃ first rest, us = first :: rest ∧ first.kind = .sign .lbrace) :
    (c.on l).peek.kind = .sign .lbrace := by
  obtain ⟨first, rest, rfl, kind⟩ := start
  have same := h.head
  cases l' : l.drop 1 with
  | nil => simp [l'] at same
  | cons tok m =>
    rw [l'] at same
    rw [peekDrop l']
    cases same
    exact kind

theorem takenCond {test yes : Tree} (more : ts ≠ []) (kind : tok.kind = .keyword .kIf)
    (condition : Taken (.condition test) ts (.sign .lbrace))
    (start : ∃ first rest, us = first :: rest ∧ first.kind = .sign .lbrace)
    (body : Taken (.block yes) us next) :
    Taken (.opening (.cond test yes .missing tok.line)) (tok :: (ts ++ us)) next := by
  refine takenAfter (by simp [more]) (by rw [kind]; rfl) ?_
  intro noElse bound expr nested c m l' span ahead short
  obtain ⟨l₁, first, second⟩ := span.cut more (by rcases start with ⟨_, _, rfl, _⟩; simp)
  have shorter := first.lengthDrop
  unfold opening conditional
  refine (runBind (condition rfl nested tok first (spanBlock second start) short)).trans ?_
  refine (runBind (body nested second (by omega))).trans ?_
  rw [runPeekIs, if_neg (by simp [ahead, noElse])]
  rfl

theorem takenLoop {test body : Tree} (more : ts ≠ []) (kind : tok.kind = .keyword .kWhile)
    (condition : Taken (.condition test) ts (.sign .lbrace))
    (start : ∃ first rest, us = first :: rest ∧ first.kind = .sign .lbrace)
    (block : Taken (.block body) us next) :
    Taken (.opening (.loop test body tok.line)) (tok :: (ts ++ us)) next := by
  refine takenAfter (by simp [more]) (by rw [kind]; rfl) ?_
  intro _ bound expr nested c m l' span _ short
  obtain ⟨l₁, first, second⟩ := span.cut more (by rcases start with ⟨_, _, rfl, _⟩; simp)
  have shorter := first.lengthDrop
  unfold opening repetition
  refine (runBind (condition rfl nested tok first (spanBlock second start) short)).trans ?_
  exact runBind (block nested second (by omega))

theorem takenCondElse {vs : List Token} {test yes no : Tree} {other : Token} (more : ts ≠ [])
    (kind : tok.kind = .keyword .kIf) (condition : Taken (.condition test) ts (.sign .lbrace))
    (start : ∃ first rest, us = first :: rest ∧ first.kind = .sign .lbrace)
    (body : Taken (.block yes) us other.kind) (otherwise : other.kind = .keyword .kElse)
    (start' : ∃ first rest, vs = first :: rest ∧ first.kind = .sign .lbrace)
    (alternative : Taken (.block no) vs next) :
    Taken (.opening (.cond test yes no tok.line)) (tok :: (ts ++ (us ++ other :: vs))) next := by
  have more' : us ≠ [] := by rcases start with ⟨_, _, rfl, _⟩; simp
  have more'' : vs ≠ [] := by rcases start' with ⟨_, _, rfl, _⟩; simp
  refine takenAfter (by simp) (by rw [kind]; rfl) ?_
  intro _ bound expr nested c m l' span _ short
  obtain ⟨l₁, first, tail⟩ := span.cut more (by simp)
  obtain ⟨l₂, rest, second, same, third⟩ := tail.cutCons more' more''
  have shorter := first.lengthDrop
  have shorter' := second.lengthDrop
  rw [same, List.length_cons] at shorter'
  have isElse : (c.on l₂).peek.kind = .keyword .kElse := by rw [peekDrop same, otherwise]
  unfold opening conditional
  refine (runBind (condition rfl nested tok first (spanBlock second start) short)).trans ?_
  refine (runBind (body nested second (by omega))).trans ?_
  rw [runPeekIs, if_pos (by simp [isElse]), runAdvance, Cursor.onAdvance, same]
  refine (runExpect (spanBlock (l := other :: rest) third start')).trans ?_
  have less : rest.length ≤ bound := by omega
  exact runBind (alternative nested third less)

theorem takenFunction {names : List String} {body : Tree} {begin : Token} (more : ts ≠ [])
    (kind : tok.kind = .keyword .kFun) (started : begin.kind = .sign .lparen)
    (params : Taken (.params names) ts (.sign .lbrace))
    (start : ∃ first rest, us = first :: rest ∧ first.kind = .sign .lbrace)
    (block : Taken (.block body) us next) :
    Taken (.opening (.function names body tok.line)) (tok :: begin :: (ts ++ us)) next := by
  refine takenAfter (by simp) (by rw [kind]; rfl) ?_
  intro _ bound expr nested c m l' span _ short
  obtain ⟨m, rfl, tail⟩ := span.uncons (by simp [more])
  obtain ⟨l₁, first, second⟩ := tail.cut more (by rcases start with ⟨_, _, rfl, _⟩; simp)
  have shorter := first.lengthDrop
  rw [List.length_cons] at short
  have ahead : (c.on (tok :: begin :: m)).peek.kind = .sign .lparen := started
  unfold opening function
  simp only [ifNot]
  refine (runExpect ahead).trans ?_
  refine (runBind (params (c := c) begin first)).trans ?_
  refine (runExpect (spanBlock second start)).trans ?_
  have less : (l₁.drop 1).length ≤ bound := by omega
  exact runBind (block nested second less)

/-! Parts of openings -/

theorem takenLastItem (item : Taken (.expression .lowest e) ts next) : Taken (.items [e]) ts next := by
  intro noElse noComma bound expr nested c l l' span ahead short k enough
  cases k with
  | zero => omega
  | succ k =>
    unfold items
    refine (runBind (item noElse nested span ahead short)).trans ?_
    rw [runPeekIs, if_neg (by simp [ahead, noComma])]
    rfl

theorem takenMoreItems {es : List Tree} {comma : Token} (start : ts ≠ []) (more : us ≠ [])
    (item : Taken (.expression .lowest e) ts (.sign .comma)) (separated : comma.kind = .sign .comma)
    (others : Taken (.items es) us next) : Taken (.items (e :: es)) (ts ++ comma :: us) next := by
  intro noElse noComma bound expr nested c l l' span ahead short k enough
  obtain ⟨l₁, m, first, same, second⟩ := span.cutCons start more
  have ahead₁ : (c.on l₁).peek.kind = .sign .comma := by rw [peekDrop same, separated]
  have shorter := first.lengthDrop
  rw [same, List.length_cons] at shorter
  cases k with
  | zero => omega
  | succ k =>
    rw [items]
    refine (runBind (item (by decide) nested first ahead₁ short)).trans ?_
    rw [runPeekIs, if_pos (by simp [ahead₁]), runAdvance, runAdvance, Cursor.onAdvance, same]
    exact runBind (others noElse noComma nested second ahead (by omega) (by omega))

theorem takenNoItems {close : Sign} (closed : tok.kind = .sign close) :
    Taken (.list close []) [tok] next := by
  intro _ bound expr _ c l l' tok₀ span _
  cases span with
  | more tok tail => cases tail
  | one tok rest =>
    have ahead : (c.on (tok₀ :: tok :: rest)).peek.kind = .sign close := closed
    unfold expressions
    rw [runPeekIs, if_pos (by simp [ahead])]
    rfl

theorem opensOther {k k' : Kind} (h : (Forms.standardOpening? k).isSome = true)
    (closed : Forms.standardOpening? k' = none) : k ≠ k' := by
  rintro rfl
  simp [closed] at h

theorem takenSomeItems {close : Sign} {es : List Tree}
    (start : ∃ first rest, ts = first :: rest ∧ (Forms.standardOpening? first.kind).isSome = true)
    (items : Taken (.items es) ts (.sign close)) (closed : tok.kind = .sign close) :
    Taken (.list close es) (ts ++ [tok]) next := by
  intro closes bound expr nested c l l' tok₀ span short
  obtain ⟨first, others, rfl, opens⟩ := start
  obtain ⟨l₁, rest, inner, same, rfl⟩ := span.cutLast (by simp)
  obtain ⟨m, rfl⟩ := inner.first
  have ahead : (c.on l₁).peek.kind = .sign close := by rw [peekDrop same, closed]
  have more : (c.on (tok₀ :: first :: m)).peek.kind ≠ .sign close :=
    opensOther opens (by rcases closes with rfl | rfl <;> rfl)
  unfold expressions
  rw [runPeekIs, if_neg (by simp [more]), runAdvance, runRemaining]
  refine (runBind (items (by simp) ?_ nested inner ahead short (Nat.lt_succ_self _))).trans ?_
  · rcases closes with rfl | rfl <;> decide
  refine (runExpect ahead).trans ?_
  rw [Cursor.onAdvance, same, mapMSome]
  rfl

theorem takenNoPairs (closed : tok.kind = .sign .rbrace) : Taken (.pairs []) [tok] next := by
  intro bound expr _ c l l' tok₀ span _ k enough
  cases span with
  | more tok tail => cases tail
  | one tok rest =>
    have ahead : (c.on (tok₀ :: tok :: rest)).peek.kind = .sign .rbrace := closed
    cases k with
    | zero => exact absurd enough (Nat.not_lt_zero _)
    | succ k =>
      unfold pairs
      rw [runPeekIs, if_pos (by simp [ahead])]
      rfl

def pairsRest (expr : Reader) (k : Nat) (pair : Tree × Tree) :
    Parser (Option (List (Tree × Tree))) := do
  if !(← peekIs (.sign .rbrace)) then
    if !(← expect (.sign .comma)) then
      return none
  return (← pairs expr k).map (pair :: ·)

theorem takenPair {key value : Tree} {colon : Token}
    (start : ∃ first rest, ts = first :: rest ∧ (Forms.standardOpening? first.kind).isSome = true)
    (more : us ≠ []) (left : Taken (.expression .lowest key) ts (.sign .colon))
    (separated : colon.kind = .sign .colon) (right : Taken (.expression .lowest value) us next)
    (noElse : next ≠ .keyword .kElse) {bound : Nat} {expr : Reader} (nested : Nested bound expr)
    {c : Cursor} {l l' : List Token} (tok₀ : Token) (span : Spans l (ts ++ colon :: us) l')
    (ahead : (c.on l').peek.kind = next) (short : l.length < bound) (k : Nat) :
    (pairs expr (k + 1)).run (c.on (tok₀ :: l)) = (pairsRest expr k (key, value)).run (c.on l') := by
  obtain ⟨first, others, rfl, opens⟩ := start
  obtain ⟨l₁, m, inner, same, tail⟩ := span.cutCons (by simp) more
  obtain ⟨m', rfl⟩ := inner.first
  have ahead₁ : (c.on l₁).peek.kind = .sign .colon := by rw [peekDrop same, separated]
  have open' : (c.on (tok₀ :: first :: m')).peek.kind ≠ .sign .rbrace := opensOther opens rfl
  have shorter := inner.lengthDrop
  rw [same, List.length_cons] at shorter
  have less : m.length < bound := by omega
  rw [pairs, runPeekIs, if_neg (by simp [open']), runAdvance]
  simp only [ifNot]
  refine (runBind (left (by decide) nested inner ahead₁ short)).trans ?_
  refine (runExpect ahead₁).trans ?_
  rw [Cursor.onAdvance, same, if_pos rfl, runAdvance]
  refine (runBind (right noElse nested tail ahead less)).trans ?_
  simp only [pairsRest, ifNot]

theorem takenLastPair {key value : Tree} {colon : Token}
    (start : ∃ first rest, ts = first :: rest ∧ (Forms.standardOpening? first.kind).isSome = true)
    (more : us ≠ []) (left : Taken (.expression .lowest key) ts (.sign .colon))
    (separated : colon.kind = .sign .colon)
    (right : Taken (.expression .lowest value) us (.sign .rbrace))
    (closed : tok.kind = .sign .rbrace) :
    Taken (.pairs [(key, value)]) (ts ++ colon :: (us ++ [tok])) next := by
  intro bound expr nested c l l' tok₀ span short k enough
  have grouped : ts ++ colon :: (us ++ [tok]) = (ts ++ colon :: us) ++ [tok] := by simp
  rw [grouped] at span
  obtain ⟨l₁, rest, inner, same, rfl⟩ := span.cutLast (by simp)
  have ahead : (c.on l₁).peek.kind = .sign .rbrace := by rw [peekDrop same, closed]
  have shorter := inner.lengthDrop
  rw [same] at shorter
  obtain ⟨x, m, rfl, _⟩ := inner.split
  cases k with
  | zero => omega
  | succ k =>
    rw [takenPair start more left separated right (by decide) nested tok₀ inner ahead short k]
    unfold pairsRest
    simp only [ifNot]
    rw [runPeekIs, if_pos (by simp [ahead])]
    have tail : m = tok :: rest := same
    subst tail
    exact runBind (@takenNoPairs next tok closed _ _ nested _ _ _ x (.one tok rest) (by omega) _
      (by omega))

theorem takenMorePairs {vs : List Token} {key value : Tree} {ps : List (Tree × Tree)}
    {colon comma : Token}
    (start : ∃ first rest, ts = first :: rest ∧ (Forms.standardOpening? first.kind).isSome = true)
    (more : us ≠ []) (more' : vs ≠ []) (left : Taken (.expression .lowest key) ts (.sign .colon))
    (separated : colon.kind = .sign .colon)
    (right : Taken (.expression .lowest value) us (.sign .comma))
    (continued : comma.kind = .sign .comma) (others : Taken (.pairs ps) vs next) :
    Taken (.pairs ((key, value) :: ps)) (ts ++ colon :: (us ++ comma :: vs)) next := by
  intro bound expr nested c l l' tok₀ span short k enough
  have grouped : ts ++ colon :: (us ++ comma :: vs) = (ts ++ colon :: us) ++ comma :: vs := by simp
  rw [grouped] at span
  obtain ⟨l₁, m, inner, same, tail⟩ := span.cutCons (by simp) more'
  have ahead : (c.on l₁).peek.kind = .sign .comma := by rw [peekDrop same, continued]
  have shorter := inner.lengthDrop
  rw [same, List.length_cons] at shorter
  cases k with
  | zero => omega
  | succ k =>
    rw [takenPair start more left separated right (by decide) nested tok₀ inner ahead short k]
    unfold pairsRest
    simp only [ifNot]
    rw [runPeekIs, if_neg (by simp [ahead])]
    refine (runExpect ahead).trans ?_
    rw [Cursor.onAdvance, same]
    exact runBind (others nested comma tail (by omega) (by omega))

theorem parametersStep {names : List String} (kind : tok.kind = .ident) (other : tok.text ∉ names)
    {c : Cursor} {m : List Token} (tok₀ : Token) (k : Nat) :
    (parameters (k + 1) names).run (c.on (tok₀ :: tok :: m)) =
      (do
        if ← peekIs (.sign .comma) then
          advance
          parameters k (names ++ [tok.text])
        else if ← expect (.sign .rparen) then
          return some (names ++ [tok.text])
        else
          return none : Parser (Option (List String))).run (c.on (tok :: m)) := by
  have ahead : (c.on (tok₀ :: tok :: m)).peek.kind = .ident := kind
  rw [parameters]
  simp only [ifNot]
  refine (runExpect ahead).trans ?_
  rw [if_pos rfl, runCurr, if_neg (by simpa using other)]
  rfl

theorem takenLastName {close : Token} (kind : tok.kind = .ident) (closed : close.kind = .sign .rparen) :
    Taken (.names [tok.text]) [tok, close] next := by
  intro c l l' tok₀ span k names enough distinct
  obtain ⟨m, rfl, tail⟩ := span.uncons (by simp)
  have other : tok.text ∉ names := by
    intro member
    exact (List.nodup_append.1 distinct).2.2 _ member _ (by simp) rfl
  cases tail with
  | more tok tail => cases tail
  | one close rest =>
    have ahead : (c.on (tok :: close :: rest)).peek.kind = .sign .rparen := closed
    cases k with
    | zero => exact absurd enough (Nat.not_lt_zero _)
    | succ k =>
      rw [parametersStep kind other, runPeekIs, if_neg (by simp [ahead])]
      exact runExpect ahead

theorem takenMoreNames {comma : Token} {others : List String} (more : ts ≠ [])
    (kind : tok.kind = .ident) (separated : comma.kind = .sign .comma)
    (rest : Taken (.names others) ts next) :
    Taken (.names (tok.text :: others)) (tok :: comma :: ts) next := by
  intro c l l' tok₀ span k names enough distinct
  obtain ⟨m, rfl, tail⟩ := span.uncons (by simp)
  obtain ⟨m, rfl, last⟩ := tail.uncons more
  have other : tok.text ∉ names := by
    intro member
    exact (List.nodup_append.1 distinct).2.2 _ member _ (by simp) rfl
  have ahead : (c.on (tok :: comma :: m)).peek.kind = .sign .comma := separated
  rw [List.append_cons] at distinct ⊢
  rw [List.length_cons, List.length_cons] at enough
  cases k with
  | zero => omega
  | succ k =>
    rw [parametersStep kind other, runPeekIs, if_pos (by simp [ahead]), runAdvance]
    exact rest comma last (by omega) distinct

theorem takenNoParams (closed : tok.kind = .sign .rparen) : Taken (.params []) [tok] next := by
  intro c l l' tok₀ span
  cases span with
  | more tok tail => cases tail
  | one tok rest =>
    have ahead : (c.on (tok₀ :: tok :: rest)).peek.kind = .sign .rparen := closed
    unfold parameterList
    rw [runPeekIs, if_pos (by simp [ahead])]
    rfl

theorem takenSomeParams {names : List String}
    (start : ∃ first rest, ts = first :: rest ∧ first.kind = .ident)
    (list : Taken (.names names) ts next) (distinct : names.Nodup) :
    Taken (.params names) ts next := by
  intro c l l' tok₀ span
  obtain ⟨first, others, rfl, kind⟩ := start
  obtain ⟨m, rfl⟩ := span.first
  have ahead : (c.on (tok₀ :: first :: m)).peek.kind ≠ .sign .rparen := by
    intro same
    exact absurd (kind.symm.trans same) (by decide)
  unfold parameterList
  rw [runPeekIs, if_neg (by simp [ahead]), runRemaining]
  exact @list c _ l' tok₀ span _ [] (Nat.lt_succ_self _) distinct

/-! Statements -/

theorem takenBlock {body : List Tree} {close : Token}
    (statements : Taken (.statements body) ts (.sign .rbrace)) (closed : close.kind = .sign .rbrace) :
    Taken (.block (.block body tok.line)) (tok :: (ts ++ [close])) next := by
  intro bound expr nested c l l' span short
  obtain ⟨m, rfl, tail⟩ := span.uncons (by simp)
  obtain ⟨rest, rfl, rfl⟩ : ∃ rest, l' = close :: rest ∧ m = ts ++ close :: rest := by
    cases ts with
    | nil =>
      cases tail with
      | one tok rest => exact ⟨rest, rfl, rfl⟩
      | more tok tail => cases tail
    | cons t ts =>
      obtain ⟨l₁, rest, inner, same, rfl⟩ := tail.cutLast (by simp)
      obtain ⟨x, m', rfl, whole⟩ := inner.split
      exact ⟨rest, rfl, by rw [whole, ← same]; rfl⟩
  have here : (c.on (close :: rest)).curr.kind = .sign .rbrace := closed
  unfold block
  rw [runCurr, runAdvance, runRemaining]
  refine (runBind (statements (.inl rfl) nested (by simp) (by simp) here short
    (Nat.le_refl _))).trans ?_
  rw [runCurr, if_neg (by simp [closed])]
  rfl

theorem takenLast {es : List Token} (start : ts ≠ [])
    (value : Taken (.expression .lowest e) ts (following es next)) (ends : Ends es next)
    {bound : Nat} {expr : Reader} (nested : Nested bound expr) {c : Cursor} {l l' : List Token}
    (span : Spans l (ts ++ es) l') (ahead : (c.on l').peek.kind = next) (short : l.length < bound) :
    (lastExpression expr).run (c.on l) = .ok (some e, c.on l') := by
  unfold lastExpression
  rcases ends with ⟨semicolon, kind, rfl⟩ | ⟨rfl, closes⟩
  · obtain ⟨l₁, rest, inner, same, rfl⟩ := span.cutLast start
    have ahead₁ : (c.on l₁).peek.kind = .sign .semicolon := by rw [peekDrop same, kind]
    have next₁ : following [semicolon] next = .sign .semicolon := kind
    rw [next₁] at value
    refine (runBind (value (by decide) nested inner ahead₁ short)).trans ?_
    have ended : endStatement.run (c.on l₁) = .ok (true, c.on (semicolon :: rest)) := by
      unfold endStatement
      rw [runPeek, if_pos ahead₁, runAdvance, Cursor.onAdvance, same]
      rfl
    exact runBind ended
  · rw [List.append_nil] at span
    have next₁ : following [] next = next := rfl
    rw [next₁] at value
    have noElse : next ≠ .keyword .kElse := by rcases closes with rfl | rfl <;> decide
    have noSemicolon : next ≠ .sign .semicolon := by rcases closes with rfl | rfl <;> decide
    refine (runBind (value noElse nested span ahead short)).trans ?_
    have ended : endStatement.run (c.on l') = .ok (true, c.on l') := by
      unfold endStatement
      rw [runPeek, ahead, if_neg noSemicolon, if_pos (by simpa using closes)]
      rfl
    exact runBind ended

theorem takenBinding {es : List Token} {name sign : Token} {op : Op}
    (build : String → Op → Tree → Tree) (start : ts ≠ []) (operator : sign.kind.assignOp? = some op)
    (value : Taken (.expression .lowest e) ts (following es next)) (ends : Ends es next)
    {bound : Nat} {expr : Reader} (nested : Nested bound expr) {c : Cursor} {l l' : List Token}
    (span : Spans l (sign :: (ts ++ es)) l') (ahead : (c.on l').peek.kind = next)
    (short : l.length < bound) :
    (binding expr build).run (c.on (name :: l)) = .ok (some (build name.text op e), c.on l') := by
  obtain ⟨m, rfl, tail⟩ := span.uncons (by simp [start])
  have ahead₁ : (c.on (name :: sign :: m)).peek = sign := rfl
  unfold binding
  rw [runCurr, runPeek, ahead₁, operator]
  simp only []
  rw [runAdvance, runAdvance]
  have less : m.length < bound := Nat.lt_of_succ_lt short
  exact runBind (takenLast start value ends nested tail ahead less)

theorem takenDefine {es : List Token} {name sign : Token} {op : Op} (start : ts ≠ [])
    (kind : tok.kind = .keyword .kLet) (named : name.kind = .ident)
    (operator : sign.kind.assignOp? = some op)
    (value : Taken (.expression .lowest e) ts (following es next)) (ends : Ends es next) :
    Taken (.statement (.define name.text op e tok.line)) (tok :: name :: sign :: (ts ++ es)) next := by
  intro _ _ _ bound expr nested c l l' span ahead short
  obtain ⟨m, rfl, tail⟩ := span.uncons (by simp)
  obtain ⟨m, rfl, last⟩ := tail.uncons (by simp)
  have ahead₁ : (c.on (tok :: name :: m)).peek.kind = .ident := named
  have less : m.length < bound := Nat.lt_of_succ_lt (Nat.lt_of_succ_lt short)
  unfold statement
  rw [runCurr, Cursor.onCurrCons, kind]
  simp only [definition]
  rw [runCurr]
  refine (runExpect ahead₁).trans ?_
  exact takenBinding (fun name op value => .define name op value tok.line) start operator value ends
    nested last ahead less

theorem takenAssign {es : List Token} {name sign : Token} {op : Op} (start : ts ≠ [])
    (named : name.kind = .ident) (operator : sign.kind.assignOp? = some op)
    (value : Taken (.expression .lowest e) ts (following es next)) (ends : Ends es next) :
    Taken (.statement (.assign name.text op e name.line)) (name :: sign :: (ts ++ es)) next := by
  intro _ _ _ bound expr nested c l l' span ahead short
  obtain ⟨m, rfl, tail⟩ := span.uncons (by simp)
  obtain ⟨m', rfl, _⟩ := tail.uncons (by simp [start])
  have ahead₁ : (c.on (name :: sign :: m')).peek = sign := rfl
  have less : (sign :: m').length < bound := Nat.lt_of_succ_lt short
  unfold statement
  rw [runCurr, Cursor.onCurrCons, named]
  simp only []
  rw [runPeek, ahead₁, operator, if_pos (Option.isSome_some)]
  exact takenBinding (fun name' op value => .assign name' op value name.line) start operator value
    ends nested tail ahead less

theorem takenReturnNull {semicolon : Token} (kind : tok.kind = .keyword .kReturn)
    (closed : semicolon.kind = .sign .semicolon) :
    Taken (.statement (.ret (.null tok.line) tok.line)) [tok, semicolon] next := by
  intro _ _ _ bound expr _ c l l' span _ _
  obtain ⟨m, rfl, tail⟩ := span.uncons (by simp)
  cases tail with
  | more tok tail => cases tail
  | one semicolon rest =>
    have ahead : (c.on (tok :: semicolon :: rest)).peek.kind = .sign .semicolon := closed
    unfold statement
    rw [runCurr, Cursor.onCurrCons, kind]
    simp only [returning]
    rw [runCurr, runPeekIs, if_pos (by simp [ahead])]
    rfl

theorem takenReturnValue {es : List Token}
    (start : ∃ first rest, ts = first :: rest ∧ (Forms.standardOpening? first.kind).isSome = true)
    (kind : tok.kind = .keyword .kReturn)
    (value : Taken (.expression .lowest e) ts (following es next)) (ends : Ends es next) :
    Taken (.statement (.ret e tok.line)) (tok :: (ts ++ es)) next := by
  intro _ _ _ bound expr nested c l l' span ahead short
  obtain ⟨first, others, rfl, opens⟩ := start
  obtain ⟨m, rfl, tail⟩ := span.uncons (by simp)
  obtain ⟨m', rfl⟩ := tail.first
  have ahead₁ : (c.on (tok :: first :: m')).peek.kind ≠ .sign .semicolon := opensOther opens rfl
  unfold statement
  rw [runCurr, Cursor.onCurrCons, kind]
  simp only [returning]
  rw [runCurr, runPeekIs, if_neg (by simp [ahead₁]), runAdvance]
  exact runBind (takenLast (by simp) value ends nested tail ahead (Nat.lt_of_succ_lt short))

theorem statementBare {expr : Reader} {c : Cursor}
    (opens : (Forms.standardOpening? c.curr.kind).isSome = true)
    (plain : c.curr.kind = .ident → c.peek.kind.assignOp? = none) :
    (statement expr).run c = (bare expr).run c := by
  unfold statement
  rw [runCurr]
  split
  · next kind => simp [kind, Forms.standardOpening?] at opens
  · next kind => simp [kind, Forms.standardOpening?] at opens
  · next kind => rw [runPeek, plain kind, if_neg (by simp)]
  · rfl

theorem peekFollowing {c : Cursor} {l l' : List Token} (span : Spans l (tok :: us) l')
    (ahead : (c.on l').peek.kind = next) : (c.on l).peek.kind = following us next := by
  cases span with
  | one tok rest => exact ahead
  | more tok tail => cases tail <;> rfl

theorem takenBare {es : List Token} (derived : Derives (.expression .lowest e) (tok :: ts) (following es next))
    (value : Taken (.expression .lowest e) (tok :: ts) (following es next)) (ends : MayEnd es) :
    Taken (.statement (.statement e tok.line)) (tok :: ts ++ es) next := by
  intro noElse noSemicolon noAssign bound expr nested c l l' span ahead short
  obtain ⟨m, rfl⟩ := span.first
  obtain ⟨first, others, same, opens⟩ := derivesStart derived nofun
  cases same
  have opens : (Forms.standardOpening? (c.on (tok :: m)).curr.kind).isSome = true := opens
  have last : (following es next).assignOp? = none := by
    rcases ends with ⟨semicolon, kind, rfl⟩ | rfl
    · simp [following, kind, Kind.assignOp?, Sign.assignOp?]
    · exact noAssign
  have plain : tok.kind = .ident → (c.on (tok :: m)).peek.kind.assignOp? = none := by
    intro named
    have same : (c.on (tok :: m)).peek.kind = following (ts ++ es) next := peekFollowing span ahead
    rw [same, followingAppend]
    exact derivesNoAssign derived rfl named last
  refine (statementBare opens plain).trans ?_
  unfold bare
  rw [runCurr]
  rcases ends with ⟨semicolon, kind, rfl⟩ | rfl
  · obtain ⟨l₁, rest, inner, same, rfl⟩ := span.cutLast (by simp)
    have ahead₁ : (c.on l₁).peek.kind = .sign .semicolon := by rw [peekDrop same, kind]
    have next₁ : following [semicolon] next = .sign .semicolon := kind
    rw [next₁] at value
    refine (runBind (value (by decide) nested inner ahead₁ short)).trans ?_
    rw [runPeekIs, if_pos (by simp [ahead₁]), runAdvance, Cursor.onAdvance, same]
    rfl
  · rw [List.append_nil] at span
    refine (runBind (value noElse nested span ahead short)).trans ?_
    rw [runPeekIs, if_neg (by simp [ahead, noSemicolon])]
    rfl

theorem takenNoStatements : Taken (.statements []) [] next := by
  intro _ bound expr _ ends _ closed c rest here _ k _
  cases k with
  | zero => rfl
  | succ k =>
    rw [List.nil_append, statements, runCurr, here, if_pos closed]
    rfl

theorem startsStatement {t : Tree} {k : Kind} (h : (Phrase.statement t).starts k = true) :
    k ≠ .keyword .kElse ∧ k ≠ .sign .semicolon ∧ k.assignOp? = none ∧ k ≠ .sign .rbrace ∧ k ≠ .eof := by
  cases k with
  | keyword w => cases w <;> simp_all [Phrase.starts, Forms.standardOpening?, Kind.assignOp?]
  | sign s =>
    cases s <;>
      simp_all [Phrase.starts, Forms.standardOpening?, Kind.assignOp?, Sign.assignOp?]
  | _ => simp_all [Phrase.starts, Forms.standardOpening?, Kind.assignOp?]

theorem followStatements {body : List Tree} (h : Derives (.statements body) us next)
    (closes : next = .sign .rbrace ∨ next = .eof) :
    following us next ≠ .keyword .kElse ∧ following us next ≠ .sign .semicolon ∧
      (following us next).assignOp? = none := by
  cases h with
  | noStatements => rcases closes with rfl | rfl <;> exact ⟨by decide, by decide, rfl⟩
  | someStatements first others =>
    obtain ⟨tok, rest, rfl, starts⟩ := derivesStart first nofun
    obtain ⟨noElse, noSemicolon, noAssign, _⟩ := startsStatement starts
    exact ⟨noElse, noSemicolon, noAssign⟩

theorem takenSomeStatements {t : Tree} {body : List Tree}
    (start : ∃ first rest, ts = first :: rest ∧ (Phrase.statement t).starts first.kind = true)
    (derived : Derives (.statements body) us next) (first : Taken (.statement t) ts (following us next))
    (others : Taken (.statements body) us next) : Taken (.statements (t :: body)) (ts ++ us) next := by
  intro closes bound expr nested ends only closed c rest here short k enough
  obtain ⟨noElse, noSemicolon, noAssign⟩ := followStatements derived closes
  rw [List.append_assoc] at short enough ⊢
  obtain ⟨l', span⟩ := Spans.ofAppend ts (us ++ rest) (by rcases start with ⟨_, _, rfl, _⟩; simp)
  obtain ⟨last, rest', rfl, same⟩ := span.split
  rw [List.append_cancel_left_eq] at same
  subst same
  have ahead : (c.on (last :: (us ++ rest))).peek.kind = following us next := by
    cases us with
    | nil => exact here
    | cons tok us => rfl
  obtain ⟨tok, ts, rfl, starts⟩ := start
  obtain ⟨_, _, _, noBrace, noEnd⟩ := startsStatement starts
  have going : ¬ ends tok.kind = true := fun stop => (only _ stop).elim noBrace noEnd
  cases k with
  | zero => exact absurd enough (by simp)
  | succ k =>
    rw [statements, runCurr]
    rw [List.cons_append, Cursor.onCurrCons, if_neg going]
    refine (runBind (first noElse noSemicolon noAssign nested span ahead short)).trans ?_
    rw [runAdvance]
    simp only [List.cons_append, List.length_cons, List.length_append] at short enough
    exact runBind (others closes nested only closed here (by simp; omega) (by simp; omega))

end

/-! Every derivation -/

theorem derivesNotEmpty {phrase : Phrase} {ts : List Token} {next : Kind} (h : Derives phrase ts next)
    (whole : ∀ body, phrase ≠ .statements body) : ts ≠ [] := by
  obtain ⟨tok, us, rfl, _⟩ := derivesStart h whole
  simp

theorem blockStart {t : Tree} {ts : List Token} {next : Kind} (h : Derives (.block t) ts next) :
    ∃ first rest, ts = first :: rest ∧ first.kind = .sign .lbrace := by
  obtain ⟨tok, us, same, starts⟩ := derivesStart h nofun
  exact ⟨tok, us, same, by simpa [Phrase.starts] using starts⟩

theorem namesStart {names : List String} {ts : List Token} {next : Kind}
    (h : Derives (.names names) ts next) : ∃ first rest, ts = first :: rest ∧ first.kind = .ident := by
  obtain ⟨tok, us, same, starts⟩ := derivesStart h nofun
  exact ⟨tok, us, same, by simpa [Phrase.starts] using starts⟩

theorem derivesTaken {phrase : Phrase} {ts : List Token} {next : Kind} (h : Derives phrase ts next)
    (short : ∀ t ∈ ts, t.kind = .int → t.text.toList.length ≤ Oversize.limit) :
    Taken phrase ts next := by
  induction h with
  | noStatements => exact takenNoStatements
  | expression _ greedy ih => exact takenExpression (ih short) greedy
  | opened _ ih => exact takenOpened (ih short)
  | lastItem _ ih => exact takenLastItem (ih short)
  | someParams list distinct ih => exact takenSomeParams (namesStart list) (ih short) distinct
  | atom atom => exact takenAtom (short _ (by simp)) atom
  | noItems closed => exact takenNoItems closed
  | noPairs closed => exact takenNoPairs closed
  | lastName kind closed => exact takenLastName kind closed
  | noParams closed => exact takenNoParams closed
  | returnNull kind closed => exact takenReturnNull kind closed
  | binary left kind operator tighter right ih ih' =>
    simp only [List.forall_mem_append, List.forall_mem_cons] at short
    exact takenBinary (derivesNotEmpty left nofun) (derivesNotEmpty right nofun) (ih short.1) kind
      operator tighter (ih' short.2.2)
  | call left kind tighter list ih ih' =>
    simp only [List.forall_mem_append, List.forall_mem_cons] at short
    exact takenCall (derivesNotEmpty left nofun) (derivesNotEmpty list nofun) (ih short.1) kind
      tighter (ih' short.2.2)
  | index left kind tighter inner closed ih ih' =>
    simp only [List.forall_mem_append, List.forall_mem_cons] at short
    exact takenIndex (derivesNotEmpty left nofun) (derivesNotEmpty inner nofun) (ih short.1) kind
      tighter (ih' short.2.2.1) closed
  | dot left kind tighter right ih ih' =>
    simp only [List.forall_mem_append, List.forall_mem_cons] at short
    exact takenDot (derivesNotEmpty left nofun) (derivesNotEmpty right nofun) (ih short.1) kind
      tighter (ih' short.2.2)
  | group kind inner closed ih =>
    simp only [List.forall_mem_append, List.forall_mem_cons] at short
    exact takenGroup (derivesNotEmpty inner nofun) kind (ih short.2.1) closed
  | unary kind operator inner ih =>
    simp only [List.forall_mem_cons] at short
    exact takenUnary (derivesNotEmpty inner nofun) kind operator (ih short.2)
  | array kind list ih =>
    simp only [List.forall_mem_cons] at short
    exact takenArray (derivesNotEmpty list nofun) kind (ih short.2)
  | hash kind pairs ih =>
    simp only [List.forall_mem_cons] at short
    exact takenHash (derivesNotEmpty pairs nofun) kind (ih short.2)
  | cond kind condition body ih ih' =>
    simp only [List.forall_mem_append, List.forall_mem_cons] at short
    exact takenCond (derivesNotEmpty condition nofun) kind (ih short.2.1) (blockStart body)
      (ih' short.2.2)
  | condElse kind condition body otherwise alternative ih ih' ih'' =>
    simp only [List.forall_mem_append, List.forall_mem_cons] at short
    exact takenCondElse (derivesNotEmpty condition nofun) kind (ih short.2.1) (blockStart body)
      (ih' short.2.2.1) otherwise (blockStart alternative) (ih'' short.2.2.2.2)
  | loop kind condition block ih ih' =>
    simp only [List.forall_mem_append, List.forall_mem_cons] at short
    exact takenLoop (derivesNotEmpty condition nofun) kind (ih short.2.1) (blockStart block)
      (ih' short.2.2)
  | function kind started params block ih ih' =>
    simp only [List.forall_mem_append, List.forall_mem_cons] at short
    exact takenFunction (derivesNotEmpty params nofun) kind started (ih short.2.2.1)
      (blockStart block) (ih' short.2.2.2)
  | moreItems item separated others ih ih' =>
    simp only [List.forall_mem_append, List.forall_mem_cons] at short
    exact takenMoreItems (derivesNotEmpty item nofun) (derivesNotEmpty others nofun) (ih short.1)
      separated (ih' short.2.2)
  | someItems items closed ih =>
    simp only [List.forall_mem_append] at short
    exact takenSomeItems (derivesStart items nofun) (ih short.1) closed
  | lastPair key separated value closed ih ih' =>
    simp only [List.forall_mem_append, List.forall_mem_cons] at short
    exact takenLastPair (derivesStart key nofun) (derivesNotEmpty value nofun) (ih short.1) separated
      (ih' short.2.2.1) closed
  | morePairs key separated value continued others ih ih' ih'' =>
    simp only [List.forall_mem_append, List.forall_mem_cons] at short
    exact takenMorePairs (derivesStart key nofun) (derivesNotEmpty value nofun)
      (derivesNotEmpty others nofun) (ih short.1) separated (ih' short.2.2.1) continued
      (ih'' short.2.2.2.2)
  | moreNames kind separated others ih =>
    simp only [List.forall_mem_cons] at short
    exact takenMoreNames (derivesNotEmpty others nofun) kind separated (ih short.2.2)
  | condition kind inner closed ih =>
    simp only [List.forall_mem_append, List.forall_mem_cons] at short
    exact takenCondition (derivesNotEmpty inner nofun) kind (ih short.2.1) closed
  | block _ statements closed ih =>
    simp only [List.forall_mem_append, List.forall_mem_cons] at short
    exact takenBlock (ih short.2.1) closed
  | someStatements first others ih ih' =>
    simp only [List.forall_mem_append] at short
    exact takenSomeStatements (derivesStart first nofun) others (ih short.1) (ih' short.2)
  | define kind named operator value ends ih =>
    simp only [List.forall_mem_append, List.forall_mem_cons] at short
    exact takenDefine (derivesNotEmpty value nofun) kind named operator (ih short.2.2.2.1) ends
  | assign named operator value ends ih =>
    simp only [List.forall_mem_append, List.forall_mem_cons] at short
    exact takenAssign (derivesNotEmpty value nofun) named operator (ih short.2.2.1) ends
  | returnValue kind value ends ih =>
    simp only [List.forall_mem_append, List.forall_mem_cons] at short
    exact takenReturnValue (derivesStart value nofun) kind (ih short.2.1) ends
  | bare value ends ih =>
    rw [List.forall_mem_append] at short
    exact takenBare value (ih short.1) ends

/-! Whole programs -/

theorem atomProper {tok : Token} {e : Tree} (h : Atom tok e) : tok.kind ≠ .eof := by
  cases h <;> simp [*]

theorem derivesProper {phrase : Phrase} {ts : List Token} {next : Kind} (h : Derives phrase ts next) :
    ∀ t ∈ ts, t.kind ≠ .eof := by
  have noEnd {es : List Token} {k : Kind} (ends : Ends es k) : ∀ t ∈ es, t.kind ≠ .eof := by
    rcases ends with ⟨semicolon, kind, rfl⟩ | ⟨rfl, _⟩ <;> simp [*]
  have assigns {k : Kind} {op : Op} (operator : k.assignOp? = some op) : k ≠ .eof := by
    rintro rfl
    cases operator
  induction h with
  | expression _ _ ih | opened _ ih | lastItem _ ih | someParams _ _ ih => exact ih
  | noStatements => simp
  | atom atom => simpa using atomProper atom
  | define kind named operator _ ends ih =>
    simp only [List.forall_mem_cons, List.forall_mem_append]
    exact ⟨by simp [kind], by simp [named], assigns operator, ih, noEnd ends⟩
  | assign named operator _ ends ih =>
    simp only [List.forall_mem_cons, List.forall_mem_append]
    exact ⟨by simp [named], assigns operator, ih, noEnd ends⟩
  | returnValue kind _ ends ih =>
    simp only [List.forall_mem_cons, List.forall_mem_append]
    exact ⟨by simp [kind], ih, noEnd ends⟩
  | bare _ ends ih =>
    rw [List.forall_mem_append]
    refine ⟨ih, ?_⟩
    rcases ends with ⟨semicolon, kind, rfl⟩ | rfl <;> simp [*]
  | _ => grind

theorem firstEnd {ts us rest rest' : List Token} {finish finish' : Token}
    (same : ts ++ finish :: rest = us ++ finish' :: rest') (proper : ∀ t ∈ ts, t.kind ≠ .eof)
    (proper' : ∀ t ∈ us, t.kind ≠ .eof) (ended : finish.kind = .eof) (ended' : finish'.kind = .eof) :
    ts = us ∧ finish = finish' := by
  induction ts generalizing us with
  | nil =>
    cases us with
    | nil => exact ⟨rfl, (List.cons.inj same).1⟩
    | cons u us =>
      have first := (List.cons.inj same).1
      exact absurd (first ▸ ended) (proper' u (by simp))
  | cons t ts ih =>
    cases us with
    | nil =>
      have first := (List.cons.inj same).1
      exact absurd (first ▸ ended') (proper t (by simp))
    | cons u us =>
      obtain ⟨rfl, tail⟩ := List.cons.inj same
      rw [List.forall_mem_cons] at proper proper'
      obtain ⟨rfl, rfl⟩ := ih tail proper.2 proper'.2
      exact ⟨rfl, rfl⟩

theorem programTaken {c : Cursor} {ts : List Token} {tree : Tree} {rest : List Token}
    (whole : c.ahead = ts ++ rest) (ended : (c.on rest).curr.kind = .eof)
    (short : ∀ t ∈ ts, t.kind = .int → t.text.toList.length ≤ Oversize.limit)
    (h : DerivesProgram ts (c.on rest).curr tree) : program.run c = .ok (tree, c.on rest) := by
  obtain ⟨body, derived, rfl⟩ := h
  have read : (statements (expression .standard) (fun k => k = .eof) (ts ++ rest).length).run
      (c.on (ts ++ rest)) = .ok (body, c.on rest) :=
    derivesTaken derived short (.inr ended) (nestedExpression ((ts ++ rest).length + 1))
      (by simp) (by simp [ended]) rfl (Nat.lt_succ_self _) (Nat.le_refl _)
  have same : c = c.on (ts ++ rest) := by
    rw [← whole]
    rfl
  have first : c.curr = ts.headD (c.on rest).curr := by
    rw [Cursor.curr, whole]
    cases ts <;> rfl
  unfold program
  rw [runCurr, runRemaining, first, whole]
  rw [← same] at read
  exact runBind read

theorem ofTokensSplit (ts : List Token) {rest : List Token} {finish : Token}
    (ended : finish.kind = .eof) (last : ∀ t ∈ rest.getLast?, t.kind = .eof) :
    ∃ l final, Cursor.ofTokens (ts ++ finish :: rest) = ⟨ts ++ l, final, []⟩ ∧ final.kind = .eof ∧
      l.headD final = finish ∧ l ++ [final] = finish :: rest := by
  rcases rest.eq_nil_or_concat with rfl | ⟨middle, final, rfl⟩
  · exact ⟨[], finish, by rw [Cursor.ofTokensConcat, List.append_nil], ended, rfl, rfl⟩
  · rw [List.concat_eq_append] at last ⊢
    refine ⟨finish :: middle, final, ?_, last final (by simp), rfl, rfl⟩
    rw [← Cursor.ofTokensConcat, List.append_assoc]
    rfl

theorem cursorWhole (c : Cursor) : ∃ rest, c.ahead ++ [c.finish] = c.curr :: rest := by
  rcases c with ⟨_ | ⟨tok, ahead⟩, finish, errors⟩
  · exact ⟨[], rfl⟩
  · exact ⟨ahead ++ [finish], rfl⟩

/-- A sequence of tokens that ends with an end token is read, up to the first end token, without an
error just if it is derived by the grammar, and then to the tree of the derivation. -/
theorem parsesJustTheGrammar (ts rest : List Token) (finish : Token)
    (proper : ∀ t ∈ ts, t.kind ≠ .eof) (ended : finish.kind = .eof)
    (last : ∀ t ∈ rest.getLast?, t.kind = .eof)
    (short : ∀ t ∈ ts ++ rest, t.kind = .int → t.text.toList.length ≤ Oversize.limit) :
    ∃ parsed, parseTokens (ts ++ finish :: rest) = .ok parsed ∧
      ∀ tree, (parsed.errors = [] ∧ parsed.tree = tree) ↔ DerivesProgram ts finish tree := by
  obtain ⟨l, final, start, plain, here, whole⟩ := ofTokensSplit ts ended last
  unfold parseTokens
  rw [start]
  rcases programRuns ⟨ts ++ l, final, []⟩ plain with
    ⟨_, _, t, member, kind, long⟩ | ⟨tree, c', run, moves, post⟩
  · have other : t ≠ finish := by
      rintro rfl
      simp [kind] at ended
    have inside : t ∈ ts ++ (l ++ [final]) := by
      rw [← List.append_assoc]
      exact List.mem_append_left _ member
    rw [whole] at inside
    have fits := short t (by simpa [other] using inside) kind
    omega
  · refine ⟨⟨tree, c'.errors⟩, by rw [run]; rfl, fun t => ⟨?_, fun derived => ?_⟩⟩
    · rintro ⟨clean, rfl⟩
      obtain ⟨ended', us, split, body, statements, same⟩ := post clean
      obtain ⟨rest', whole'⟩ := cursorWhole c'
      have equal : us ++ c'.curr :: rest' = ts ++ finish :: rest := by
        rw [← whole, ← whole', moves.finish, ← List.append_assoc, ← List.append_assoc, ← split]
      obtain ⟨rfl, rfl⟩ := firstEnd equal (derivesProper statements) proper ended' ended
      exact ⟨body, statements, same⟩
    · have first : ((⟨ts ++ l, final, []⟩ : Cursor).on l).curr = finish := here
      have taken := programTaken rfl (by rw [first, ended])
        (fun t h => short t (by simp [h])) (first ▸ derived)
      rw [run] at taken
      obtain ⟨rfl, rfl⟩ := Prod.mk.inj (Except.ok.inj taken)
      exact ⟨rfl, rfl⟩

def differenceTokens : List Token :=
  [⟨.keyword .kLet, "let", 1⟩, ⟨.ident, "x", 1⟩, ⟨.sign .assign, "=", 1⟩, ⟨.ident, "a", 1⟩,
    ⟨.sign .minus, "-", 1⟩, ⟨.int, "1", 1⟩, ⟨.sign .minus, "-", 2⟩, ⟨.ident, "b", 2⟩,
    ⟨.sign .dot, ".", 2⟩, ⟨.ident, "c", 2⟩, ⟨.sign .lparen, "(", 2⟩, ⟨.sign .rparen, ")", 2⟩]

theorem parsesJustTheGrammarDifference :
    DerivesProgram differenceTokens ⟨.eof, "", 3⟩
      (.program [.define "x" .assign
        (.binary .sub (.binary .sub (.ident "a" 1) (.number 1 1) 1)
          (.call (.dot (.ident "b" 2) (.ident "c" 2) 2) [] 2) 2) 1] 1) := by
  obtain ⟨parsed, run, reads⟩ := parsesJustTheGrammar differenceTokens [] ⟨.eof, "", 3⟩
    (by decide) rfl (by decide) (by decide)
  refine (reads _).1 ?_
  cases run
  exact ⟨rfl, rfl⟩

end Baby
