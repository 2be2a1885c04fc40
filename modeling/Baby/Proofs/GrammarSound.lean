import Baby.Proofs.Grammar
import Baby.Proofs.Reading

/-! What is read without an error is derived by the grammar. One lemma for each reader, all of them
over a reader of expressions that is right about fewer than `n` tokens; the readers of lists and
statements also count their rounds. -/
namespace Baby.Parser
open Cursor (Plain Moves)

theorem ifNot {α : Type} (b : Bool) (p q : α) :
    (if (!b) = true then q else p) = if b = true then p else q := by
  cases b <;> rfl

theorem pureIf {α : Type} (b : Bool) (x y : α) :
    (pure (if b = true then x else y) : Parser α) = if b = true then pure x else pure y := by
  cases b <;> rfl

theorem kindOfSpan {c : Cursor} {k : Kind} (plain : c.Plain) (kind : c.peek.kind = k)
    (proper : k ≠ .eof) : Spans (c.ahead.drop 1) [c.peek] c.advance.ahead := by
  obtain ⟨rest, same⟩ := plain.peekCons (kind ▸ proper)
  rw [Cursor.advanceAhead, same]
  exact .one _ _

theorem currSpan {c : Cursor} (plain : c.Plain) (more : c.curr.kind ≠ .eof) :
    Spans c.ahead [c.curr] c.ahead := by
  obtain ⟨rest, same⟩ := plain.currCons more
  rw [same]
  exact .one _ _

theorem lengthPeek {c : Cursor} {k : Kind} (plain : c.Plain) (kind : c.peek.kind = k)
    (proper : k ≠ .eof) : c.advance.ahead.length + 1 = c.ahead.length := by
  obtain ⟨rest, same⟩ := plain.peekCons (kind ▸ proper)
  simp [same]

/- Reads expressions, at least of fewer than `n` tokens. -/
def ReadsExpressions (n : Nat) (expr : Reader) : Prop :=
  ∀ level c, .lowest ≤ level → c.Plain → Runs c (expr level) fun r c' => c.ahead.length < n →
    ∃ e ts, r = some e ∧ Spans c.ahead ts c'.ahead ∧ Derives (.expression level e) ts c'.peek.kind

section
variable {n : Nat} {expr : Reader}

theorem itemsRuns (h : ReadsExpressions n expr) (k : Nat) (c : Cursor) (plain : c.Plain) :
    Runs c (items expr k) fun r c' => c.ahead.length < n → c.ahead.length < k →
      ∃ es ts, r = es.map some ∧ Spans c.ahead ts c'.ahead ∧ Derives (.items es) ts c'.peek.kind := by
  induction k generalizing c with
  | zero => exact .pure fun _ _ fuel => absurd fuel (Nat.not_lt_zero _)
  | succ k ih =>
    unfold items
    refine (h .lowest c (by decide) plain).bind fun item c₁ m₁ h₁ => .peekIs (fun comma => ?_) fun _ => ?_
    · have plain₁ := plain.moves m₁
      have plain₂ := plain₁.moves (.advance c₁)
      refine .advance (.advance ((ih _ (plain₂.moves (.advance _))).bind fun rest c₂ m₂ h₂ =>
        .pure fun clean short fuel => ?_))
      obtain ⟨e, ts, rfl, span, derived⟩ := h₁ (m₂.clean clean) short
      have less := lengthPeek plain₁ comma (by decide)
      have length := m₁.length
      have shorter : c₁.advance.advance.ahead.length ≤ c₁.advance.ahead.length :=
        (Moves.advance _).length
      obtain ⟨es, us, rfl, span', derived'⟩ := h₂ clean (by omega) (by omega)
      refine ⟨e :: es, ts ++ c₁.peek :: us, rfl, ?_, .moreItems (comma ▸ derived) comma derived'⟩
      simpa using span.append ((kindOfSpan plain₁ comma (by decide)).append span')
    · refine .pure fun clean short _ => ?_
      obtain ⟨e, ts, rfl, span, derived⟩ := h₁ clean short
      exact ⟨[e], ts, rfl, span, .lastItem derived⟩

theorem mapMSome {α : Type} (xs : List α) : (xs.map some).mapM id = some xs := by
  induction xs with
  | nil => rfl
  | cons x xs ih => simp [List.mapM_cons, ih]

theorem expressionsRuns (h : ReadsExpressions n expr) {close : Sign} (c : Cursor) (plain : c.Plain)
    (opened : c.curr.kind ≠ .eof) :
    Runs c (expressions expr close) fun r c' => c.ahead.length ≤ n →
      ∃ es ts, r = some es ∧ Spans c.ahead (c.curr :: ts) c'.ahead ∧
        Derives (.list close es) ts c'.peek.kind := by
  have here := currSpan plain opened
  unfold expressions
  refine .peekIs (fun closed => .advance (.pure fun _ _ => ?_)) fun _ => .advance (.remaining ?_)
  · exact ⟨[], [c.peek], rfl, here.append (kindOfSpan plain closed (by simp)), .noItems closed⟩
  · have plain₁ := plain.moves (.advance c)
    refine (itemsRuns h _ c.advance plain₁).bind fun found c₁ m₁ h₁ =>
      .expect (fun closed => .pure fun clean short => ?_) fun _ _ => .pure fun _ => trivial
    have plain₂ := plain₁.moves m₁
    have less : c.advance.ahead.length < c.ahead.length := by
      obtain ⟨rest, same⟩ := plain.currCons opened
      simp [same]
    obtain ⟨es, ts, rfl, span, derived⟩ := h₁ clean (by omega) (by omega)
    refine ⟨es, ts ++ [c₁.peek], mapMSome es, ?_, .someItems (closed ▸ derived) closed⟩
    simpa using here.append (span.append (kindOfSpan plain₂ closed (by simp)))

theorem pairsClosed {c : Cursor} (closed : c.peek.kind = .sign .rbrace) (k : Nat) :
    Runs c (pairs expr k) fun r c' => 0 < k → r = some [] ∧ c' = c.advance := by
  cases k with
  | zero => exact .pure fun _ fuel => absurd fuel (Nat.lt_irrefl 0)
  | succ k =>
    unfold pairs
    exact .peekIs (fun _ => .advance (.pure fun _ _ => ⟨rfl, rfl⟩)) fun other => absurd closed other

theorem pairsRuns (h : ReadsExpressions n expr) (k : Nat) (c : Cursor) (plain : c.Plain)
    (opened : c.curr.kind ≠ .eof) :
    Runs c (pairs expr k) fun r c' => c.ahead.length ≤ n → c.ahead.length < k →
      ∃ ps ts, r = some ps ∧ Spans c.ahead (c.curr :: ts) c'.ahead ∧
        Derives (.pairs ps) ts c'.peek.kind := by
  induction k generalizing c with
  | zero => exact .pure fun _ _ fuel => absurd fuel (Nat.not_lt_zero _)
  | succ k ih =>
    have here := currSpan plain opened
    have less : c.advance.ahead.length < c.ahead.length := by
      obtain ⟨rest, same⟩ := plain.currCons opened
      simp [same]
    unfold pairs
    simp only [ifNot]
    refine .peekIs (fun closed => .advance (.pure fun _ _ _ => ?_)) fun _ => .advance ?_
    · exact ⟨[], [c.peek], rfl, here.append (kindOfSpan plain closed (by decide)), .noPairs closed⟩
    have plain₁ := plain.moves (.advance c)
    refine (h .lowest _ (by decide) plain₁).bind fun key c₁ m₁ h₁ =>
      .expect (fun colon => .advance ?_) fun _ _ => .pure fun _ => trivial
    have plain₂ := plain₁.moves m₁
    have plain₃ := (plain₂.moves (.advance c₁)).moves (.advance _)
    have shorter := lengthPeek plain₂ colon (by decide)
    have length := m₁.length
    have shorter' : c₁.advance.advance.ahead.length ≤ c₁.advance.ahead.length :=
      (Moves.advance _).length
    refine (h .lowest _ (by decide) plain₃).bind fun value c₂ m₂ h₂ => ?_
    have plain₄ := plain₃.moves m₂
    have length' := m₂.length
    cases key with
    | none =>
      refine .pure fun clean short _ => ?_
      obtain ⟨_, _, absent, _⟩ := h₁ (m₂.clean clean) (by omega)
      cases absent
    | some k =>
    cases value with
    | none =>
      refine .pure fun clean short _ => ?_
      obtain ⟨_, _, absent, _⟩ := h₂ clean (by omega)
      cases absent
    | some v =>
    refine .peekIs (fun closed => ?_) fun _ => .expect (fun comma => ?_) fun _ _ => .pure fun _ => trivial
    · refine (pairsClosed closed _).bind fun rest c₃ m₃ h₃ => .pure fun clean short fuel => ?_
      obtain ⟨rfl, rfl⟩ := h₃ clean (by omega)
      obtain ⟨_, ts, ⟨⟩, span, derived⟩ := h₁ (m₂.clean clean) (by omega)
      obtain ⟨_, us, ⟨⟩, span', derived'⟩ := h₂ clean (by omega)
      refine ⟨[(k, v)], ts ++ c₁.peek :: (us ++ [c₂.peek]), rfl, ?_,
        .lastPair (colon ▸ derived) colon (closed ▸ derived') closed⟩
      simpa using here.append (span.append ((kindOfSpan plain₂ colon (by decide)).append
        (span'.append (kindOfSpan plain₄ closed (by decide)))))
    · have shorter₂ := lengthPeek plain₄ comma (by decide)
      refine (ih c₂.advance (plain₄.moves (.advance c₂)) (by simp [comma])).bind
        fun rest c₃ m₃ h₃ => .pure fun clean short fuel => ?_
      have clean₂ := m₃.clean clean
      obtain ⟨ps, vs, rfl, span₂, derived₂⟩ := h₃ clean (by omega) (by omega)
      obtain ⟨_, ts, ⟨⟩, span, derived⟩ := h₁ (m₂.clean clean₂) (by omega)
      obtain ⟨_, us, ⟨⟩, span', derived'⟩ := h₂ clean₂ (by omega)
      refine ⟨(k, v) :: ps, ts ++ c₁.peek :: (us ++ c₂.peek :: vs), rfl, ?_,
        .morePairs (colon ▸ derived) colon (comma ▸ derived') comma derived₂⟩
      simpa using here.append (span.append ((kindOfSpan plain₂ colon (by decide)).append
        (span'.append span₂)))

theorem parametersRuns (k : Nat) (names : List String) (c : Cursor) (plain : c.Plain)
    (opened : c.curr.kind ≠ .eof) :
    Runs c (parameters k names) fun r c' => c.ahead.length ≤ k → names.Nodup →
      ∃ others ts, r = some (names ++ others) ∧ Spans c.ahead (c.curr :: ts) c'.ahead ∧
        Derives (.names others) ts c'.peek.kind ∧ (names ++ others).Nodup := by
  induction k generalizing c names with
  | zero =>
    refine .pure fun _ fuel => ?_
    obtain ⟨rest, same⟩ := plain.currCons opened
    simp [same] at fuel
  | succ k ih =>
    have here := currSpan plain opened
    unfold parameters
    simp only [ifNot]
    refine .expect (fun kind => .curr ?_) fun _ _ => .pure fun _ => trivial
    have plain₁ := plain.moves (.advance c)
    have shorter := lengthPeek plain kind (by decide)
    have span := here.append (kindOfSpan plain kind (by decide))
    rw [Cursor.advanceCurr]
    split
    · exact .report (.pure fun _ => trivial)
    · rename_i fresh
      refine .peekIs (fun comma => .advance ?_) fun _ =>
        .expect (fun closed => .pure fun _ _ distinct => ?_) fun _ _ => .pure fun _ => trivial
      · have shorter' := lengthPeek plain₁ comma (by decide)
        refine (ih _ c.advance.advance (plain₁.moves (.advance _)) ?_).weaken
          fun r c₁ _ _ post fuel distinct => ?_
        · simp [comma]
        obtain ⟨others, ts, rfl, span', derived, nodup⟩ := post (by omega) (by
          simpa [List.nodup_append] using ⟨distinct, fun a ha same => fresh (same ▸ ha)⟩)
        refine ⟨c.peek.text :: others, c.peek :: c.advance.peek :: ts, by simp, ?_,
          .moreNames kind comma derived, by simpa using nodup⟩
        simpa using span.append span'
      · refine ⟨[c.peek.text], [c.peek, c.advance.peek], rfl, ?_, .lastName kind closed, ?_⟩
        · simpa using span.append (kindOfSpan plain₁ closed (by decide))
        · simpa [List.nodup_append] using ⟨distinct, fun a ha same => fresh (same ▸ ha)⟩

theorem parameterListRuns (c : Cursor) (plain : c.Plain) (opened : c.curr.kind ≠ .eof) :
    Runs c parameterList fun r c' => ∃ names ts, r = some names ∧
      Spans c.ahead (c.curr :: ts) c'.ahead ∧ Derives (.params names) ts c'.peek.kind := by
  have here := currSpan plain opened
  unfold parameterList
  refine .peekIs (fun closed => .advance (.pure fun _ => ?_)) fun _ => .remaining ?_
  · exact ⟨[], [c.peek], rfl, here.append (kindOfSpan plain closed (by decide)), .noParams closed⟩
  · refine (parametersRuns _ [] c plain opened).weaken fun r c₁ _ _ post => ?_
    obtain ⟨names, ts, rfl, span, derived, nodup⟩ := post (Nat.le_refl _) .nil
    exact ⟨names, ts, rfl, span, .someParams derived (by simpa using nodup)⟩

/-! Statements -/

theorem endStatementRuns (c : Cursor) (plain : c.Plain) :
    Runs c endStatement fun b c' => b = true ∧ ∃ es, Ends es c'.peek.kind ∧
      following es c'.peek.kind = c.peek.kind ∧
      ∀ l ts, Spans l ts c.ahead → Spans l (ts ++ es) c'.ahead := by
  unfold endStatement
  refine .peek ?_
  split
  · rename_i semicolon
    refine .advance (.pure fun _ => ⟨rfl, [c.peek], .inl ⟨_, semicolon, rfl⟩, rfl, ?_⟩)
    exact fun l ts span => span.append (kindOfSpan plain semicolon (by decide))
  · split
    · rename_i last
      refine .pure fun _ => ⟨rfl, [], .inr ⟨rfl, by simpa using last⟩, rfl, ?_⟩
      exact fun l ts span => by simpa using span
    · exact .reportPeek (.synchronize (.pure fun _ => trivial))

theorem lastExpressionRuns (h : ReadsExpressions n expr) (c : Cursor) (plain : c.Plain) :
    Runs c (lastExpression expr) fun r c' => c.ahead.length < n →
      ∃ e ts es, r = some e ∧ Spans c.ahead (ts ++ es) c'.ahead ∧
        Derives (.expression .lowest e) ts (following es c'.peek.kind) ∧ Ends es c'.peek.kind := by
  unfold lastExpression
  refine (h .lowest c (by decide) plain).bind fun r c₁ m₁ h₁ => ?_
  cases r with
  | none =>
    refine .synchronize (.pure fun clean short => ?_)
    obtain ⟨_, _, absent, _⟩ := h₁ clean short
    cases absent
  | some e =>
    refine (endStatementRuns c₁ (plain.moves m₁)).bind fun b c₂ m₂ h₂ => .pure fun clean short => ?_
    obtain ⟨rfl, es, ends, next, extend⟩ := h₂ clean
    obtain ⟨_, ts, ⟨⟩, span, derived⟩ := h₁ (m₂.clean clean) short
    exact ⟨e, ts, es, rfl, extend _ _ span, next ▸ derived, ends⟩

theorem bindingRuns (h : ReadsExpressions n expr) {build : String → Op → Tree → Tree} (c : Cursor)
    (plain : c.Plain) (named : c.curr.kind ≠ .eof) :
    Runs c (binding expr build) fun r c' => c.ahead.length ≤ n →
      ∃ sign op e ts es, r = some (build c.curr.text op e) ∧
        Spans c.ahead (c.curr :: sign :: (ts ++ es)) c'.ahead ∧ sign.kind.assignOp? = some op ∧
        Derives (.expression .lowest e) ts (following es c'.peek.kind) ∧ Ends es c'.peek.kind := by
  have here := currSpan plain named
  unfold binding
  refine .curr (.peek ?_)
  split
  · exact .reportPeek (.synchronize (.pure fun _ => trivial))
  · rename_i op operator
    have proper : c.peek.kind ≠ .eof := by
      intro last
      simp [last, Kind.assignOp?] at operator
    have plain₁ := plain.moves (.advance c)
    have shorter := lengthPeek plain rfl proper
    have shorter' : c.advance.advance.ahead.length ≤ c.advance.ahead.length := (Moves.advance _).length
    refine .advance (.advance ((lastExpressionRuns h _ (plain₁.moves (.advance _))).bind
      fun r c₁ m₁ h₁ => .pure fun clean short => ?_))
    obtain ⟨e, ts, es, rfl, span, derived, ends⟩ := h₁ clean (by omega)
    refine ⟨c.peek, op, e, ts, es, rfl, ?_, operator, derived, ends⟩
    simpa using here.append ((kindOfSpan plain rfl proper).append span)

theorem definitionRuns (h : ReadsExpressions n expr) (c : Cursor) (plain : c.Plain)
    (kind : c.curr.kind = .keyword .kLet) :
    Runs c (definition expr) fun r c' => c.ahead.length ≤ n →
      ∃ t ts, r = some t ∧ Spans c.ahead ts c'.ahead ∧ Derives (.statement t) ts c'.peek.kind := by
  have here := currSpan plain (by simp [kind])
  unfold definition
  refine .curr (.expect (fun named => ?_) fun _ _ => .synchronize (.pure fun _ => trivial))
  have shorter := lengthPeek plain named (by decide)
  refine (bindingRuns h c.advance (plain.moves (.advance c)) (by simp [named])).weaken
    fun r c₁ _ _ post short => ?_
  obtain ⟨sign, op, e, ts, es, rfl, span, operator, derived, ends⟩ := post (by omega)
  exact ⟨_, _, rfl, here.append span, .define kind named operator derived ends⟩

theorem returningRuns (h : ReadsExpressions n expr) (c : Cursor) (plain : c.Plain)
    (kind : c.curr.kind = .keyword .kReturn) :
    Runs c (returning expr) fun r c' => c.ahead.length ≤ n →
      ∃ t ts, r = some t ∧ Spans c.ahead ts c'.ahead ∧ Derives (.statement t) ts c'.peek.kind := by
  have here := currSpan plain (by simp [kind])
  unfold returning
  refine .curr (.peekIs (fun semicolon => .advance (.pure fun _ _ => ?_)) fun _ => .advance ?_)
  · exact ⟨_, _, rfl, here.append (kindOfSpan plain semicolon (by decide)), .returnNull kind semicolon⟩
  · refine (lastExpressionRuns h _ (plain.moves (.advance c))).bind
      fun r c₁ m₁ h₁ => .pure fun clean short => ?_
    have less : c.advance.ahead.length < c.ahead.length := by
      obtain ⟨rest, same⟩ := plain.currCons (by simp [kind])
      simp [same]
    obtain ⟨e, ts, es, rfl, span, derived, ends⟩ := h₁ clean (by omega)
    exact ⟨_, c.curr :: (ts ++ es), rfl, here.append span, .returnValue kind derived ends⟩

theorem bareRuns (h : ReadsExpressions n expr) (c : Cursor) (plain : c.Plain) :
    Runs c (bare expr) fun r c' => c.ahead.length < n →
      ∃ t ts, r = some t ∧ Spans c.ahead ts c'.ahead ∧ Derives (.statement t) ts c'.peek.kind := by
  unfold bare
  refine .curr ((h .lowest c (by decide) plain).bind fun value c₁ m₁ h₁ => .peekIs
    (fun semicolon => .advance (.pure fun clean short => ?_)) fun _ => .pure fun clean short => ?_)
  · obtain ⟨e, ts, rfl, span, derived⟩ := h₁ clean short
    obtain ⟨us, rfl⟩ := Cursor.spanStart span
    refine ⟨_, c.curr :: us ++ [c₁.peek], rfl, ?_, .bare derived (.inl ⟨_, semicolon, rfl⟩)⟩
    exact span.append (kindOfSpan (plain.moves m₁) semicolon (by decide))
  · obtain ⟨e, ts, rfl, span, derived⟩ := h₁ clean short
    obtain ⟨us, rfl⟩ := Cursor.spanStart span
    exact ⟨_, c.curr :: us ++ [], rfl, by simpa using span, .bare derived (.inr rfl)⟩

theorem statementRuns (h : ReadsExpressions n expr) (c : Cursor) (plain : c.Plain) :
    Runs c (statement expr) fun r c' => c.ahead.length < n →
      ∃ t ts, r = some t ∧ Spans c.ahead ts c'.ahead ∧ Derives (.statement t) ts c'.peek.kind := by
  unfold statement
  refine .curr ?_
  split
  · rename_i kind
    exact (definitionRuns h c plain kind).weaken fun _ _ _ _ post short => post (Nat.le_of_lt short)
  · rename_i kind
    exact (returningRuns h c plain kind).weaken fun _ _ _ _ post short => post (Nat.le_of_lt short)
  · rename_i kind
    refine .peek ?_
    split
    · refine (bindingRuns h c plain (by simp [kind])).weaken fun r c₁ _ _ post short => ?_
      obtain ⟨sign, op, e, ts, es, rfl, span, operator, derived, ends⟩ := post (Nat.le_of_lt short)
      exact ⟨_, _, rfl, span, .assign kind operator derived ends⟩
    · exact bareRuns h c plain
  · exact bareRuns h c plain

theorem followingSplit {c c' : Cursor} {us : List Token} (split : c.ahead = us ++ c'.ahead)
    (finish : c'.finish = c.finish) : following us c'.curr.kind = c.curr.kind := by
  cases us with
  | nil =>
    have same : c.ahead = c'.ahead := split
    simp [following, Cursor.curr, same, finish]
  | cons tok us => simp [following, Cursor.curr, split]

theorem statementsRuns (h : ReadsExpressions n expr) {ends : Kind → Bool} (last : ends .eof = true)
    (k : Nat) (c : Cursor) (plain : c.Plain) :
    Runs c (statements expr ends k) fun body c' => c.ahead.length < n → c.ahead.length ≤ k →
      ∃ ts, c.ahead = ts ++ c'.ahead ∧ Derives (.statements body) ts c'.curr.kind ∧
        ends c'.curr.kind = true := by
  induction k generalizing c with
  | zero =>
    refine .pure fun _ _ fuel => ⟨[], rfl, .noStatements, ?_⟩
    rw [plain.currEnd (List.eq_nil_of_length_eq_zero (Nat.le_zero.mp fuel))]
    exact last
  | succ k ih =>
    unfold statements
    refine .curr ?_
    split
    · rename_i ended
      exact .pure fun _ _ _ => ⟨[], rfl, .noStatements, ended⟩
    · refine (statementRuns h c plain).bind fun built c₁ m₁ h₁ => .advance ?_
      have plain₁ := (plain.moves m₁).moves (.advance c₁)
      refine (ih c₁.advance plain₁).bind fun rest c₂ m₂ h₂ => .pure fun clean short fuel => ?_
      obtain ⟨t, ts, rfl, span, derived⟩ := h₁ (m₂.clean clean) short
      obtain ⟨tok, tail, same, split⟩ := span.split
      have less : c₁.advance.ahead.length < c.ahead.length := by
        have length := m₁.length
        simp only [same, List.length_cons] at length
        simp only [Cursor.advanceAhead, same, List.drop_succ_cons, List.drop_zero]
        omega
      obtain ⟨us, split', derived', ended⟩ := h₂ clean (by omega) (by omega)
      have next := followingSplit split' m₂.finish
      refine ⟨ts ++ us, ?_, .someStatements (next.symm ▸ derived) derived', ended⟩
      rw [split, List.append_assoc, ← split', Cursor.advanceAhead, same]
      rfl

theorem blockRuns (h : ReadsExpressions n expr) (c : Cursor) (plain : c.Plain) :
    Runs c (block expr) fun t c' => c.curr.kind = .sign .lbrace → c.ahead.length ≤ n →
      ∃ ts, Spans c.ahead ts c'.ahead ∧ Derives (.block t) ts c'.peek.kind := by
  unfold block
  refine .curr (.advance (.remaining ?_))
  have plain₁ := plain.moves (.advance c)
  refine (statementsRuns h (by decide) _ c.advance plain₁).bind fun body c₁ m₁ h₁ => .curr ?_
  dsimp only
  split
  · exact .report (.pure fun _ => trivial)
  · rename_i proper
    refine .pure fun clean kind short => ?_
    obtain ⟨tail, start⟩ := plain.currCons (by simp [kind])
    have less : c.advance.ahead.length < c.ahead.length := by simp [start]
    obtain ⟨ts, split, derived, ended⟩ := h₁ clean (by omega) (Nat.le_refl _)
    have closed : c₁.curr.kind = .sign .rbrace := by simpa [proper] using ended
    obtain ⟨rest, same⟩ := (plain₁.moves m₁).currCons proper
    refine ⟨c.curr :: (ts ++ [c₁.curr]), ?_, .block kind (closed ▸ derived) closed⟩
    have ahead : c.ahead = c.curr :: (ts ++ c₁.ahead) := by
      rw [← split, Cursor.advanceAhead, start]
      rfl
    rw [ahead, same]
    exact .more _ (.after ts (.one _ _))

/-! Expressions -/

theorem conditionRuns (h : ReadsExpressions n expr) (c : Cursor) (plain : c.Plain)
    (opened : c.curr.kind ≠ .eof) :
    Runs c (condition expr) fun r c' => c.ahead.length ≤ n →
      ∃ e ts, r = some e ∧ c.ahead = c.curr :: (ts ++ c'.ahead) ∧ c'.curr.kind = .sign .lbrace ∧
        Derives (.condition e) ts (.sign .lbrace) := by
  have here := currSpan plain opened
  unfold condition
  simp only [ifNot]
  refine .expect (fun kind => .advance ?_) fun _ _ => .pure fun _ => trivial
  have plain₁ := plain.moves (.advance c)
  have shorter := lengthPeek plain kind (by decide)
  have shorter' : c.advance.advance.ahead.length ≤ c.advance.ahead.length := (Moves.advance _).length
  have plain₂ := plain₁.moves (.advance _)
  refine (h .lowest _ (by decide) plain₂).bind fun r c₁ m₁ h₁ => ?_
  cases r with
  | none =>
    refine .pure fun clean short => ?_
    obtain ⟨_, _, absent, _⟩ := h₁ clean (by omega)
    cases absent
  | some e =>
    have plain₃ := plain₂.moves m₁
    refine .expect (fun closed => .expect (fun brace => .pure fun clean short => ?_) fun _ _ =>
      .pure fun _ => trivial) fun _ _ => .pure fun _ => trivial
    obtain ⟨_, ts, ⟨⟩, span, derived⟩ := h₁ clean (by omega)
    refine ⟨e, c.peek :: (ts ++ [c₁.peek]), rfl, ?_, brace, .condition kind (closed ▸ derived) closed⟩
    have whole := here.append ((kindOfSpan plain kind (by decide)).append
      (span.append (kindOfSpan plain₃ closed (by decide))))
    obtain ⟨tok, rest, same, split⟩ := whole.split
    rw [split, Cursor.advanceAhead c₁.advance, same]
    simp

theorem conditionalRuns (h : ReadsExpressions n expr) (c : Cursor) (plain : c.Plain)
    (kind : c.curr.kind = .keyword .kIf) :
    Runs c (conditional expr c.curr.line) fun r c' => c.ahead.length ≤ n →
      ∃ e ts, r = some e ∧ Spans c.ahead ts c'.ahead ∧ Derives (.opening e) ts c'.peek.kind := by
  unfold conditional
  refine (conditionRuns h c plain (by simp [kind])).bind fun r c₁ m₁ h₁ => ?_
  have plain₁ := plain.moves m₁
  have length := m₁.length
  cases r with
  | none =>
    refine .pure fun clean short => ?_
    obtain ⟨_, _, absent, _⟩ := h₁ clean short
    cases absent
  | some test =>
    refine (blockRuns h c₁ plain₁).bind fun yes c₂ m₂ h₂ => ?_
    have plain₂ := plain₁.moves m₂
    have length' := m₂.length
    refine .peekIs (fun otherwise => .advance (.expect (fun brace => ?_) fun _ _ =>
      .pure fun _ => trivial)) fun _ => .pure fun clean short => ?_
    · have plain₃ := plain₂.moves (.advance c₂)
      have shorter : c₂.advance.ahead.length ≤ c₂.ahead.length := (Moves.advance _).length
      have shorter' : c₂.advance.advance.ahead.length ≤ c₂.advance.ahead.length :=
        (Moves.advance _).length
      refine (blockRuns h _ (plain₃.moves (.advance _))).bind fun no c₃ m₃ h₃ =>
        .pure fun clean short => ?_
      have clean₂ : c₂.errors = [] := m₃.clean clean
      obtain ⟨_, ts, ⟨⟩, split, brace₁, derived₁⟩ := h₁ (m₂.clean clean₂) short
      obtain ⟨us, span₂, derived₂⟩ := h₂ clean₂ brace₁ (by omega)
      obtain ⟨vs, span₃, derived₃⟩ := h₃ clean (by simpa using brace) (by omega)
      refine ⟨_, c.curr :: (ts ++ (us ++ c₂.peek :: vs)), rfl, ?_,
        .condElse kind derived₁ (otherwise ▸ derived₂) otherwise derived₃⟩
      rw [split]
      have tail := span₂.append ((kindOfSpan plain₂ otherwise (by decide)).append span₃)
      exact .more _ (.after ts (by simpa using tail))
    · obtain ⟨_, ts, ⟨⟩, split, brace₁, derived₁⟩ := h₁ (m₂.clean clean) short
      obtain ⟨us, span₂, derived₂⟩ := h₂ clean brace₁ (by omega)
      refine ⟨_, c.curr :: (ts ++ us), rfl, ?_, .cond kind derived₁ derived₂⟩
      rw [split]
      exact .more _ (.after ts span₂)

theorem repetitionRuns (h : ReadsExpressions n expr) (c : Cursor) (plain : c.Plain)
    (kind : c.curr.kind = .keyword .kWhile) :
    Runs c (repetition expr c.curr.line) fun r c' => c.ahead.length ≤ n →
      ∃ e ts, r = some e ∧ Spans c.ahead ts c'.ahead ∧ Derives (.opening e) ts c'.peek.kind := by
  unfold repetition
  refine (conditionRuns h c plain (by simp [kind])).bind fun r c₁ m₁ h₁ => ?_
  have length := m₁.length
  cases r with
  | none =>
    refine .pure fun clean short => ?_
    obtain ⟨_, _, absent, _⟩ := h₁ clean short
    cases absent
  | some test =>
    refine (blockRuns h c₁ (plain.moves m₁)).bind fun body c₂ m₂ h₂ => .pure fun clean short => ?_
    obtain ⟨_, ts, ⟨⟩, split, brace, derived⟩ := h₁ (m₂.clean clean) short
    obtain ⟨us, span, derived'⟩ := h₂ clean brace (by omega)
    refine ⟨_, c.curr :: (ts ++ us), rfl, ?_, .loop kind derived derived'⟩
    rw [split]
    exact .more _ (.after ts span)

theorem functionRuns (h : ReadsExpressions n expr) (c : Cursor) (plain : c.Plain)
    (kind : c.curr.kind = .keyword .kFun) :
    Runs c (function expr c.curr.line) fun r c' => c.ahead.length ≤ n →
      ∃ e ts, r = some e ∧ Spans c.ahead ts c'.ahead ∧ Derives (.opening e) ts c'.peek.kind := by
  have here := currSpan plain (by simp [kind])
  unfold function
  simp only [ifNot]
  refine .expect (fun started => ?_) fun _ _ => .pure fun _ => trivial
  have plain₁ := plain.moves (.advance c)
  have length : c.advance.ahead.length ≤ c.ahead.length := (Moves.advance c).length
  refine (parameterListRuns c.advance plain₁ (by simp [started])).bind fun r c₁ m₁ h₁ => ?_
  have length₁ := m₁.length
  cases r with
  | none =>
    refine .pure fun clean _ => ?_
    obtain ⟨_, _, absent, _⟩ := h₁ clean
    cases absent
  | some params =>
    refine .expect (fun brace => ?_) fun _ _ => .pure fun _ => trivial
    have plain₂ := plain₁.moves m₁
    have length₂ : c₁.advance.ahead.length ≤ c₁.ahead.length := (Moves.advance c₁).length
    refine (blockRuns h c₁.advance (plain₂.moves (.advance c₁))).bind fun body c₂ m₂ h₂ =>
      .pure fun clean short => ?_
    obtain ⟨_, ts, ⟨⟩, span, derived⟩ := h₁ (m₂.clean clean)
    obtain ⟨us, span', derived'⟩ := h₂ clean (by simpa using brace) (by omega)
    refine ⟨_, c.curr :: c.peek :: (ts ++ us), rfl, ?_,
      .function kind started (brace ▸ derived) derived'⟩
    simpa using here.append (span.append span')

theorem openingKind {k : Kind} {form : Opening} (h : Forms.standardOpening? k = some form) :
    match form with
    | .identifier => k = .ident
    | .integer => k = .int
    | .string => k = .string
    | .boolean value => k = .keyword (if value then .kTrue else .kFalse)
    | .null => k = .keyword .kNull
    | .group => k = .sign .lparen
    | .array => k = .sign .lbracket
    | .hash => k = .sign .lbrace
    | .unary => ∃ sign op, k = .sign sign ∧ sign.unaryOp? = some op
    | .conditional => k = .keyword .kIf
    | .loop => k = .keyword .kWhile
    | .function => k = .keyword .kFun := by
  cases k with
  | sign s =>
    cases s <;> simp [Forms.standardOpening?] at h <;> subst h <;> simp [Sign.unaryOp?]
  | keyword w => cases w <;> simp [Forms.standardOpening?] at h <;> subst h <;> simp
  | int | string | ident => cases h; rfl
  | illegal | eof => cases h

theorem continuationKind {k : Kind} {form : Continuation}
    (h : Forms.standardContinuation? k = some form) :
    match form with
    | .binary => ∃ sign op, k = .sign sign ∧ sign.binaryOp? = some op
    | .call => k = .sign .lparen
    | .index => k = .sign .lbracket
    | .dot => k = .sign .dot := by
  cases k with
  | sign s =>
    cases s <;> simp [Forms.standardContinuation?, Kind.binaryOp?, Sign.binaryOp?] at h <;> subst h <;>
      simp [Sign.binaryOp?]
  | keyword _ | int | string | ident | illegal | eof => cases h

theorem integerFits {n : Nat} : ¬ integerMax < n ↔ n < Nat.pow 2 63 := by
  have next : integerMax + 1 = Nat.pow 2 63 := rfl
  rw [← next]
  omega

theorem integerRuns (c : Cursor) (plain : c.Plain) (kind : c.curr.kind = .int) :
    Runs c (integer c.curr) fun r c' => ∃ e ts, r = some e ∧ Spans c.ahead ts c'.ahead ∧
      Derives (.opening e) ts c'.peek.kind := by
  have proper : c.curr.kind ≠ .eof := by simp [kind]
  obtain ⟨rest, same⟩ := plain.currCons proper
  unfold integer
  dsimp only
  split
  · next long =>
    exact .inl ⟨_, rfl, c.curr, by rw [same]; simp, kind, long⟩
  split
  · exact .report (.pure fun _ => trivial)
  · rename_i fits
    exact .pure fun _ =>
      ⟨_, [c.curr], rfl, currSpan plain proper, .atom (.integer kind (integerFits.1 fits))⟩

theorem openingRuns (h : ReadsExpressions n expr) (c : Cursor) (plain : c.Plain) {form : Opening}
    (opens : Forms.standardOpening? c.curr.kind = some form) :
    Runs c (opening expr c.curr form) fun r c' => c.ahead.length ≤ n →
      ∃ e ts, r = some e ∧ Spans c.ahead ts c'.ahead ∧ Derives (.opening e) ts c'.peek.kind := by
  have kind := openingKind opens
  have proper : c.curr.kind ≠ .eof := by
    intro last
    simp [last, Forms.standardOpening?] at opens
  have here := currSpan plain proper
  have plain₁ := plain.moves (.advance c)
  have less : c.advance.ahead.length < c.ahead.length := by
    obtain ⟨rest, same⟩ := plain.currCons proper
    simp [same]
  cases form with
  | identifier => exact .pure fun _ _ => ⟨_, _, rfl, here, .atom (.ident kind)⟩
  | integer => exact (integerRuns c plain kind).weaken fun _ _ _ _ post _ => post
  | string => exact .pure fun _ _ => ⟨_, _, rfl, here, .atom (.string kind)⟩
  | boolean value =>
    cases value with
    | true => exact .pure fun _ _ => ⟨_, _, rfl, here, .atom (.yes kind)⟩
    | false => exact .pure fun _ _ => ⟨_, _, rfl, here, .atom (.no kind)⟩
  | null => exact .pure fun _ _ => ⟨_, _, rfl, here, .atom (.null kind)⟩
  | group =>
    unfold opening
    simp only [pureIf]
    refine .advance ((h .lowest _ (by decide) plain₁).bind fun inner c₁ m₁ h₁ =>
      .expect (fun closed => .pure fun clean short => ?_) fun _ _ => .pure fun _ => trivial)
    obtain ⟨e, ts, rfl, span, derived⟩ := h₁ clean (by omega)
    refine ⟨e, c.curr :: (ts ++ [c₁.peek]), rfl, ?_, .group kind (closed ▸ derived) closed⟩
    exact here.append (span.append (kindOfSpan (plain₁.moves m₁) closed (by decide)))
  | array =>
    unfold opening
    refine (expressionsRuns h c plain proper).bind fun r c₁ m₁ h₁ => .pure fun clean short => ?_
    obtain ⟨es, ts, rfl, span, derived⟩ := h₁ clean short
    exact ⟨_, _, rfl, span, .array kind derived⟩
  | hash =>
    unfold opening
    refine .remaining ((pairsRuns h _ c plain proper).bind fun r c₁ m₁ h₁ => .pure fun clean short => ?_)
    obtain ⟨ps, ts, rfl, span, derived⟩ := h₁ clean short (Nat.lt_succ_self _)
    exact ⟨_, _, rfl, span, .hash kind derived⟩
  | unary =>
    obtain ⟨sign, op, kind, operator⟩ := kind
    rw [openingUnary (by rw [kind]; exact operator)]
    refine .advance ((h .unary _ (by decide) plain₁).bind fun r c₁ m₁ h₁ => .pure fun clean short => ?_)
    obtain ⟨e, ts, rfl, span, derived⟩ := h₁ clean (by omega)
    exact ⟨_, _, rfl, here.append span, .unary kind operator derived⟩
  | conditional => exact conditionalRuns h c plain kind
  | loop => exact repetitionRuns h c plain kind
  | function => exact functionRuns h c plain kind

theorem lowestPrecedence (k : Kind) : .lowest ≤ k.precedence := by
  cases k with
  | sign s => cases s <;> decide
  | keyword _ | int | string | ident | illegal | eof => exact Nat.le_refl _

theorem continuationRuns (h : ReadsExpressions n expr) (left : Tree) (c : Cursor) (plain : c.Plain)
    {form : Continuation} (continues : Forms.standardContinuation? c.curr.kind = some form) :
    Runs c (continuation expr c.curr left form) fun r c' => c.ahead.length ≤ n →
      ∃ e us, r = some e ∧ Spans c.ahead (c.curr :: us) c'.ahead ∧
        ∀ level ts, level < c.curr.kind.precedence → Derives (.operand level left) ts c.curr.kind →
          Derives (.operand level e) (ts ++ c.curr :: us) c'.peek.kind := by
  have kind := continuationKind continues
  have proper : c.curr.kind ≠ .eof := by
    intro last
    simp [last, Forms.standardContinuation?, Kind.binaryOp?] at continues
  have here := currSpan plain proper
  have plain₁ := plain.moves (.advance c)
  have less : c.advance.ahead.length < c.ahead.length := by
    obtain ⟨rest, same⟩ := plain.currCons proper
    simp [same]
  cases form with
  | binary =>
    obtain ⟨sign, op, kind, operator⟩ := kind
    rw [continuationBinary (by rw [kind]; exact operator)]
    refine .advance ((h _ _ (lowestPrecedence _) plain₁).bind fun r c₁ m₁ h₁ => .pure fun clean short => ?_)
    obtain ⟨e, us, rfl, span, derived⟩ := h₁ clean (by omega)
    refine ⟨_, us, rfl, here.append span, fun level ts tighter operand => ?_⟩
    rw [kind] at tighter derived
    exact .binary operand kind operator tighter derived
  | call =>
    refine (expressionsRuns h c plain proper).bind fun r c₁ m₁ h₁ => .pure fun clean short => ?_
    obtain ⟨args, us, rfl, span, derived⟩ := h₁ clean short
    refine ⟨_, us, rfl, span, fun level ts tighter operand => ?_⟩
    rw [kind] at tighter
    exact .call operand kind tighter derived
  | index =>
    unfold continuation
    simp only [pureIf]
    refine .advance ((h .lowest _ (by decide) plain₁).bind fun r c₁ m₁ h₁ => ?_)
    cases r with
    | none =>
      refine .pure fun clean short => ?_
      obtain ⟨_, _, absent, _⟩ := h₁ clean (by omega)
      cases absent
    | some place =>
      refine .expect (fun closed => .pure fun clean short => ?_) fun _ _ => .pure fun _ => trivial
      obtain ⟨_, us, ⟨⟩, span, derived⟩ := h₁ clean (by omega)
      refine ⟨_, us ++ [c₁.peek], rfl, ?_, fun level ts tighter operand => ?_⟩
      · exact here.append (span.append (kindOfSpan (plain₁.moves m₁) closed (by decide)))
      · rw [kind] at tighter
        exact .index operand kind tighter (closed ▸ derived) closed
  | dot =>
    refine .advance ((h .dot _ (by decide) plain₁).bind fun r c₁ m₁ h₁ => .pure fun clean short => ?_)
    obtain ⟨e, us, rfl, span, derived⟩ := h₁ clean (by omega)
    refine ⟨_, us, rfl, here.append span, fun level ts tighter operand => ?_⟩
    rw [kind] at tighter
    exact .dot operand kind tighter derived

theorem tightContinues {k : Kind} (h : Forms.standardContinuation? k = none) :
    k.precedence = .lowest := by
  cases k with
  | sign s => cases s <;> simp [Forms.standardContinuation?, Kind.binaryOp?, Sign.binaryOp?] at h <;> rfl
  | keyword _ | int | string | ident | illegal | eof => rfl

theorem extendRuns (h : ReadsExpressions n expr) {level : Precedence} (low : .lowest ≤ level)
    (k : Nat) (left : Tree) (c : Cursor) (plain : c.Plain) :
    Runs c (extend .standard expr level k left) fun r c' => c.ahead.length ≤ n → c.ahead.length ≤ k →
      ∀ l ts, Spans l ts c.ahead → Derives (.operand level left) ts c.peek.kind →
        ∃ e us, r = some e ∧ Spans l us c'.ahead ∧ Derives (.expression level e) us c'.peek.kind := by
  induction k generalizing left c with
  | zero =>
    refine .pure fun _ _ fuel l ts span _ => ?_
    exact absurd (List.eq_nil_of_length_eq_zero (Nat.le_zero.mp fuel)) span.lastNotEmpty
  | succ k ih =>
    unfold extend
    refine .peek ?_
    split
    · rename_i stops
      refine .pure fun _ _ _ l ts span derived => ⟨left, ts, rfl, span, .expression derived ?_⟩
      simp only [Bool.or_eq_true, decide_eq_true_eq] at stops
      rcases stops with semicolon | loose
      · rw [semicolon]
        exact low
      · exact loose
    · rename_i goes
      simp only [Bool.or_eq_true, decide_eq_true_eq, not_or, Nat.not_le] at goes
      split
      · rename_i none
        have loose := tightContinues none
        exact absurd goes.2 (by rw [loose]; exact Nat.not_lt.mpr low)
      · rename_i form continues
        have proper : c.peek.kind ≠ .eof := by
          intro last
          simp [last, Forms.standard, Forms.standardContinuation?, Kind.binaryOp?] at continues
        have plain₁ := plain.moves (.advance c)
        have shorter := lengthPeek plain rfl proper
        refine .advance ((continuationRuns h left c.advance plain₁ continues).bind
          fun r c₁ m₁ h₁ => ?_)
        have length := m₁.length
        cases r with
        | none =>
          refine .pure fun clean short _ l ts _ _ => ?_
          obtain ⟨_, _, absent, _⟩ := h₁ clean (by omega)
          cases absent
        | some e =>
          refine (ih e c₁ (plain₁.moves m₁)).weaken fun r c₂ m₂ clean post short fuel l ts span derived => ?_
          obtain ⟨_, us, ⟨⟩, span', grown⟩ := h₁ (m₂.clean clean) (by omega)
          exact post (by omega) (by omega) l _ (span.append span') (grown level ts goes.2 derived)

theorem oneExpressionRuns (h : ReadsExpressions n expr) :
    ReadsExpressions (n + 1) (oneExpression .standard expr) := by
  intro level c low plain
  unfold oneExpression
  refine .curr ?_
  split
  · exact .report (.pure fun _ => trivial)
  · rename_i form opens
    refine (openingRuns h c plain opens).bind fun r c₁ m₁ h₁ => ?_
    have length := m₁.length
    cases r with
    | none =>
      refine .pure fun clean short => ?_
      obtain ⟨_, _, absent, _⟩ := h₁ clean (by omega)
      cases absent
    | some left =>
      refine .remaining ((extendRuns h low _ left c₁ (plain.moves m₁)).weaken
        fun r c₂ m₂ clean post short => ?_)
      obtain ⟨_, ts, ⟨⟩, span, derived⟩ := h₁ (m₂.clean clean) (by omega)
      exact post (by omega) (Nat.le_refl _) c.ahead ts span (.opened derived)

end

theorem expressionWithinRuns (n : Nat) : ReadsExpressions n (expressionWithin .standard n) := by
  induction n with
  | zero => exact fun _ _ _ _ => .pure fun _ short => absurd short (Nat.not_lt_zero _)
  | succ n ih => exact oneExpressionRuns ih

theorem expressionRuns (n : Nat) : ReadsExpressions n (expression .standard) := by
  intro level c low plain
  refine .remaining ((expressionWithinRuns _ level c low plain).weaken fun _ _ _ _ post _ => ?_)
  exact post (Nat.lt_succ_self _)

theorem programRuns (c : Cursor) (plain : c.Plain) :
    Runs c program fun t c' => c'.curr.kind = .eof ∧
      ∃ ts, c.ahead = ts ++ c'.ahead ∧ DerivesProgram ts c'.curr t := by
  unfold program
  refine .curr (.remaining ?_)
  refine (statementsRuns (expressionRuns (c.ahead.length + 1)) (by decide) _ c plain).bind
    fun body c₁ m₁ h₁ => .pure fun clean => ?_
  obtain ⟨ts, split, derived, ended⟩ := h₁ clean (Nat.lt_succ_self _) (Nat.le_refl _)
  refine ⟨by simpa using ended, ts, split, body, derived, ?_⟩
  rw [Cursor.curr, Cursor.curr, split, m₁.finish]
  cases ts <;> rfl

end Baby.Parser
