import Mathlib.Logic.Function.Iterate
import Baby.Proofs.GrammarComplete
import Baby.Proofs.Scanning

/-! The reader ends on every token sequence. Its loops and its descent into expressions are followed
without their bounds, as rounds that are given what comes after them; unrolled more often than there
are tokens left, none of them comes to the end of the unrolling. -/
namespace Baby.Parser
open Cursor (Plain Moves)

/-! Readers that do the same -/

def Agree {α : Type} (c : Cursor) (p q : Parser α) : Prop := p.run c = q.run c

namespace Agree
variable {α β : Type} {c : Cursor} {p q : Parser α} {f g : α → Parser β}

theorem refl (c : Cursor) (p : Parser α) : Agree c p p := rfl

theorem before (first : Agree c p q) (f : α → Parser β) : Agree c (p >>= f) (q >>= f) := by
  unfold Agree at *
  rw [StateT.run_bind, StateT.run_bind, first]

theorem bind {post : α → Cursor → Prop} (first : Agree c p q) (runs : Runs c q post)
    (rest : ∀ a c₁, c.Moves c₁ → Agree c₁ (f a) (g a)) : Agree c (p >>= f) (q >>= g) := by
  unfold Agree at *
  rw [StateT.run_bind, StateT.run_bind, first]
  cases runs with
  | inl stopped =>
    obtain ⟨o, run, _⟩ := stopped
    rw [run]
    rfl
  | inr read =>
    obtain ⟨a, c₁, run, moves, _⟩ := read
    rw [run]
    exact rest a c₁ moves

theorem curr {f g : Token → Parser β} (h : Agree c (f c.curr) (g c.curr)) :
    Agree c (Parser.curr >>= f) (Parser.curr >>= g) := h

theorem peek {f g : Token → Parser β} (h : Agree c (f c.peek) (g c.peek)) :
    Agree c (Parser.peek >>= f) (Parser.peek >>= g) := h

theorem remaining {f g : Nat → Parser β} (h : Agree c (f c.ahead.length) (g c.ahead.length)) :
    Agree c (Parser.remaining >>= f) (Parser.remaining >>= g) := h

theorem advance {f g : Unit → Parser β} (h : Agree c.advance (f ()) (g ())) :
    Agree c (Parser.advance >>= f) (Parser.advance >>= g) := h

theorem ite {b : Bool} {p p' q q' : Parser β} (yes : b = true → Agree c p p')
    (no : b = false → Agree c q q') :
    Agree c (if b = true then p else q) (if b = true then p' else q') := by
  cases b with
  | true => exact yes rfl
  | false => exact no rfl

theorem peekIs {kind : Kind} {p p' q q' : Parser β} (yes : c.peek.kind = kind → Agree c p p')
    (no : c.peek.kind ≠ kind → Agree c q q') :
    Agree c (Parser.peekIs kind >>= fun b => if b = true then p else q)
      (Parser.peekIs kind >>= fun b => if b = true then p' else q') := by
  unfold Agree
  rw [runPeekIs, runPeekIs]
  exact ite (fun same => yes (of_decide_eq_true same)) fun other => no (of_decide_eq_false other)

theorem expect {kind : Kind} {p p' q q' : Parser β}
    (yes : c.peek.kind = kind → Agree c.advance p p') (no : ∀ c₁, c.Moves c₁ → Agree c₁ q q') :
    Agree c (Parser.expect kind >>= fun b => if b = true then p else q)
      (Parser.expect kind >>= fun b => if b = true then p' else q') := by
  by_cases same : c.peek.kind = kind
  · unfold Agree
    rw [runExpect same, runExpect same]
    exact yes same
  · have missed : (Parser.expect kind).run c = .ok (false, c.report ⟨.expected kind c.peek, c.peek.line⟩) := by
      simp [Parser.expect, Parser.peekIs, Parser.reportPeekFound, Parser.peek, Parser.report, same]
      rfl
    unfold Agree
    rw [runBind missed, runBind missed]
    exact no _ (.report c _)

end Agree

/-! Unrolling -/

section
variable {ι α : Type}

/- Entered at a cursor, the loop is what its round comes to when it is unrolled more often than there
are tokens left, whatever stands at the end of the unrolling. -/
def Settles (entered : Cursor → Prop) (round : (ι → Parser α) → ι → Parser α) (loop : ι → Parser α) :
    Prop :=
  ∀ c, c.Plain → entered c → ∀ n, c.ahead.length < n → ∀ last i, Agree c ((round^[n] last) i) (loop i)

def Consumes (entered : Cursor → Prop) (fair : (ι → Parser α) → Prop)
    (round : (ι → Parser α) → ι → Parser α) : Prop :=
  ∀ c, c.Plain → entered c → ∀ rest rest', fair rest' →
    (∀ j d, d.Plain → entered d → d.ahead.length < c.ahead.length → Agree d (rest j) (rest' j)) →
      ∀ i, Agree c (round rest i) (round rest' i)

section
variable {entered : Cursor → Prop} {fair : (ι → Parser α) → Prop}
  {round : (ι → Parser α) → ι → Parser α}

/- The bound may be smaller by `slack` where the round stops by itself with fewer tokens than that. -/
theorem Consumes.bounded (h : Consumes entered fair round) {loop : Nat → ι → Parser α}
    (step : ∀ n, loop (n + 1) = round (loop n)) (all : ∀ n, fair (loop n)) {slack : Nat}
    (stop : ∀ c, c.Plain → entered c → c.ahead.length < slack → ∀ rest i, Agree c (round rest i) (loop 0 i))
    (n : Nat) {c : Cursor} (plain : c.Plain) (here : entered c) (short : c.ahead.length < n + slack)
    {m : Nat} (enough : c.ahead.length < m) (last : ι → Parser α) (i : ι) :
    Agree c ((round^[m] last) i) (loop n i) := by
  induction n generalizing c m i with
  | zero =>
    cases m with
    | zero => omega
    | succ m =>
      rw [Function.iterate_succ_apply']
      exact stop c plain here (by omega) _ i
  | succ n ih =>
    cases m with
    | zero => omega
    | succ m =>
      rw [Function.iterate_succ_apply', step]
      refine h c plain here _ _ (all n) (fun j d plain' here' less => ?_) i
      exact ih plain' here' (by omega) (by omega) j

theorem Consumes.settles (h : Consumes entered fair round) (loop : Nat → ι → Parser α)
    (step : ∀ n, loop (n + 1) = round (loop n)) (all : ∀ n, fair (loop n)) :
    Settles entered round fun i => remaining >>= fun n => loop (n + 1) i := by
  intro c plain here n enough last i
  have never : ∀ c : Cursor, c.Plain → entered c → c.ahead.length < 0 →
      ∀ rest i, Agree c (round rest i) (loop 0 i) := fun _ _ _ less => absurd less (Nat.not_lt_zero _)
  exact h.bounded step all never _ plain here (Nat.lt_succ_self _) enough last i

theorem Consumes.settlesTight (h : Consumes entered fair round) (loop : Nat → ι → Parser α)
    (step : ∀ n, loop (n + 1) = round (loop n)) (all : ∀ n, fair (loop n))
    (stop : ∀ c, c.Plain → entered c → c.ahead = [] → ∀ rest i, Agree c (round rest i) (loop 0 i)) :
    Settles entered round fun i => remaining >>= fun n => loop n i := by
  intro c plain here n enough last i
  have stopped : ∀ c : Cursor, c.Plain → entered c → c.ahead.length < 1 →
      ∀ rest i, Agree c (round rest i) (loop 0 i) := by
    intro d plain' here' less
    exact stop d plain' here' (List.eq_nil_of_length_eq_zero (Nat.lt_one_iff.1 less))
  exact h.bounded step all stopped _ plain here (Nat.lt_succ_self _) enough last i

end
end

/-! Nested expressions -/

def Matches (k : Nat) (expr expr' : Reader) : Prop :=
  ∀ level c, c.Plain → c.ahead.length < k → Agree c (expr level) (expr' level)

theorem movesTwice {c c₁ : Cursor} (moves : c.Moves c₁) : c.Moves c₁.advance.advance :=
  (moves.trans (.advance c₁)).trans (.advance _)

theorem movesShort {k : Nat} {c c₁ : Cursor} (moves : c.Moves c₁) (short : c.ahead.length < k) :
    c₁.ahead.length < k :=
  Nat.lt_of_le_of_lt moves.length short

theorem advanceShort {k : Nat} {c c₁ : Cursor} (moves : c.Moves c₁)
    (short : c.advance.ahead.length < k) : c₁.advance.ahead.length < k := by
  have length := moves.length
  simp only [Cursor.advanceAhead, List.length_drop] at *
  omega

section
variable {k n : Nat} {expr expr' : Reader}

theorem itemsAgree (same : Matches k expr expr') (forward : ReadsExpressions n expr') (m : Nat)
    (c : Cursor) (plain : c.Plain) (short : c.ahead.length < k) :
    Agree c (items expr m) (items expr' m) := by
  induction m generalizing c with
  | zero => exact .refl _ _
  | succ m ih =>
    unfold items
    refine .bind (same .lowest c plain short) (forward .lowest c (by decide) plain) fun item c₁ m₁ =>
      .peekIs (fun _ => .advance (.advance (.before ?_ _))) fun _ => .refl _ _
    have m₂ := movesTwice m₁
    exact ih _ (plain.moves m₂) (movesShort m₂ short)

theorem expressionsAgree (same : Matches k expr expr') (forward : ReadsExpressions n expr')
    {close : Sign} (c : Cursor) (plain : c.Plain) (short : c.advance.ahead.length < k) :
    Agree c (expressions expr close) (expressions expr' close) := by
  unfold expressions
  refine .peekIs (fun _ => .refl _ _) fun _ => .advance (.remaining (.before ?_ _))
  exact itemsAgree same forward _ _ (plain.moves (.advance c)) short

theorem pairsAgree (same : Matches k expr expr') (forward : ReadsExpressions n expr') (m : Nat)
    (c : Cursor) (plain : c.Plain) (short : c.advance.ahead.length < k) :
    Agree c (pairs expr m) (pairs expr' m) := by
  induction m generalizing c with
  | zero => exact .refl _ _
  | succ m ih =>
    unfold pairs
    simp only [ifNot]
    refine .peekIs (fun _ => .refl _ _) fun _ => .advance ?_
    have plain₁ := plain.moves (.advance c)
    refine .bind (same .lowest _ plain₁ short) (forward .lowest _ (by decide) plain₁) fun key c₁ m₁ =>
      .expect (fun _ => .advance ?_) fun _ _ => .refl _ _
    have m₂ := movesTwice m₁
    have plain₂ := plain₁.moves m₂
    refine .bind (same .lowest _ plain₂ (movesShort m₂ short)) (forward .lowest _ (by decide) plain₂)
      fun value c₂ m₃ => ?_
    have m₄ := m₂.trans m₃
    cases key with
    | none => exact .refl _ _
    | some key =>
    cases value with
    | none => exact .refl _ _
    | some value =>
      have m₅ := m₄.trans (.advance c₂)
      refine .peekIs (fun _ => .before (ih c₂ (plain₁.moves m₄) (movesShort m₅ short)) _) fun _ =>
        .expect (fun _ => .before ?_ _) fun _ _ => .refl _ _
      exact ih c₂.advance (plain₁.moves m₅) (movesShort (m₅.trans (.advance _)) short)

theorem lastExpressionAgree (same : Matches k expr expr') (c : Cursor) (plain : c.Plain)
    (short : c.ahead.length < k) : Agree c (lastExpression expr) (lastExpression expr') :=
  .before (same .lowest c plain short) _

theorem bindingAgree (same : Matches k expr expr') {build : String → Op → Tree → Tree} (c : Cursor)
    (plain : c.Plain) (short : c.ahead.length < k) :
    Agree c (binding expr build) (binding expr' build) := by
  unfold binding
  refine .curr (.peek ?_)
  cases c.peek.kind.assignOp? with
  | none => exact .refl _ _
  | some op =>
    have m₁ := movesTwice (.refl c)
    exact .advance (.advance (.before (lastExpressionAgree same _ (plain.moves m₁) (movesShort m₁ short)) _))

theorem bareAgree (same : Matches k expr expr') (c : Cursor) (plain : c.Plain)
    (short : c.ahead.length < k) : Agree c (bare expr) (bare expr') :=
  .curr (.before (same .lowest c plain short) _)

theorem statementAgree (same : Matches k expr expr') (c : Cursor) (plain : c.Plain)
    (short : c.ahead.length < k) : Agree c (statement expr) (statement expr') := by
  have plain₁ := plain.moves (.advance c)
  have short₁ := movesShort (.advance c) short
  unfold statement
  refine .curr ?_
  split
  · exact .curr (.expect (fun _ => bindingAgree same _ plain₁ short₁) fun _ _ => .refl _ _)
  · exact .curr (.peekIs (fun _ => .refl _ _) fun _ =>
      .advance (.before (lastExpressionAgree same _ plain₁ short₁) _))
  · exact .peek (.ite (fun _ => bindingAgree same c plain short) fun _ => bareAgree same c plain short)
  · exact bareAgree same c plain short

theorem statementsAgree (same : Matches k expr expr') (forward : ReadsExpressions n expr')
    {ends : Kind → Bool} (m : Nat) (c : Cursor) (plain : c.Plain) (short : c.ahead.length < k) :
    Agree c (statements expr ends m) (statements expr' ends m) := by
  induction m generalizing c with
  | zero => exact .refl _ _
  | succ m ih =>
    unfold statements
    refine .curr (.ite (fun _ => .refl _ _) fun _ => ?_)
    refine .bind (statementAgree same c plain short) (statementRuns forward c plain) fun built c₁ m₁ =>
      .advance (.before ?_ _)
    have m₂ := m₁.trans (.advance c₁)
    exact ih _ (plain.moves m₂) (movesShort m₂ short)

theorem blockAgree (same : Matches k expr expr') (forward : ReadsExpressions n expr') (c : Cursor)
    (plain : c.Plain) (short : c.advance.ahead.length < k) : Agree c (block expr) (block expr') :=
  .curr (.advance (.remaining (.before
    (statementsAgree same forward _ _ (plain.moves (.advance c)) short) _)))

theorem conditionAgree (same : Matches k expr expr') (c : Cursor) (plain : c.Plain)
    (short : c.advance.ahead.length < k) : Agree c (condition expr) (condition expr') := by
  unfold condition
  simp only [ifNot]
  refine .expect (fun _ => .advance (.before (same .lowest _ ?_ ?_) _)) fun _ _ => .refl _ _
  · exact plain.moves (movesTwice (.refl c))
  · exact movesShort (.advance c.advance) short

theorem conditionalAgree (same : Matches k expr expr') (forward : ReadsExpressions n expr')
    (c : Cursor) (plain : c.Plain) (opened : c.curr.kind ≠ .eof) (short : c.advance.ahead.length < k)
    (line : Nat) : Agree c (conditional expr line) (conditional expr' line) := by
  unfold conditional
  refine .bind (conditionAgree same c plain short) (conditionRuns forward c plain opened)
    fun test c₁ m₁ => ?_
  have plain₁ := plain.moves m₁
  cases test with
  | none => exact .refl _ _
  | some test =>
    refine .bind (blockAgree same forward c₁ plain₁ (advanceShort m₁ short))
      (blockRuns forward c₁ plain₁) fun yes c₂ m₂ => ?_
    refine .peekIs (fun _ => .advance (.expect (fun _ => .before ?_ _) fun _ _ => .refl _ _))
      fun _ => .refl _ _
    have m₃ := movesTwice (m₁.trans m₂)
    exact blockAgree same forward _ (plain.moves m₃) (advanceShort m₃ short)

theorem repetitionAgree (same : Matches k expr expr') (forward : ReadsExpressions n expr')
    (c : Cursor) (plain : c.Plain) (opened : c.curr.kind ≠ .eof) (short : c.advance.ahead.length < k)
    (line : Nat) : Agree c (repetition expr line) (repetition expr' line) := by
  unfold repetition
  refine .bind (conditionAgree same c plain short) (conditionRuns forward c plain opened)
    fun test c₁ m₁ => ?_
  cases test with
  | none => exact .refl _ _
  | some test => exact .before (blockAgree same forward c₁ (plain.moves m₁) (advanceShort m₁ short)) _

theorem functionAgree (same : Matches k expr expr') (forward : ReadsExpressions n expr')
    (c : Cursor) (plain : c.Plain) (short : c.advance.ahead.length < k) (line : Nat) :
    Agree c (function expr line) (function expr' line) := by
  unfold function
  simp only [ifNot]
  refine .expect (fun started => ?_) fun _ _ => .refl _ _
  have plain₁ := plain.moves (.advance c)
  refine .bind (.refl _ _) (parameterListRuns c.advance plain₁ (by simp [started])) fun params c₁ m₁ => ?_
  cases params with
  | none => exact .refl _ _
  | some params =>
    refine .expect (fun _ => .before ?_ _) fun _ _ => .refl _ _
    have m₂ : c.Moves c₁.advance := (Moves.advance c).trans (m₁.trans (.advance c₁))
    exact blockAgree same forward _ (plain.moves m₂) (advanceShort m₂ short)

theorem openingAgree (same : Matches k expr expr') (forward : ReadsExpressions n expr') (c : Cursor)
    (plain : c.Plain) (opened : c.curr.kind ≠ .eof) (short : c.advance.ahead.length < k) (tok : Token)
    (form : Opening) : Agree c (opening expr tok form) (opening expr' tok form) := by
  have plain₁ := plain.moves (.advance c)
  cases form with
  | identifier | integer | string | boolean | null => exact .refl _ _
  | group => exact .advance (.before (same .lowest _ plain₁ short) _)
  | array => exact .before (expressionsAgree same forward c plain short) _
  | hash => exact .remaining (.before (pairsAgree same forward _ c plain short) _)
  | unary => exact .advance (.before (same .unary _ plain₁ short) _)
  | conditional => exact conditionalAgree same forward c plain opened short _
  | loop => exact repetitionAgree same forward c plain opened short _
  | function => exact functionAgree same forward c plain short _

theorem continuationAgree (same : Matches k expr expr') (forward : ReadsExpressions n expr')
    (c : Cursor) (plain : c.Plain) (short : c.advance.ahead.length < k) (tok : Token) (left : Tree)
    (form : Continuation) :
    Agree c (continuation expr tok left form) (continuation expr' tok left form) := by
  have plain₁ := plain.moves (.advance c)
  cases form with
  | binary => exact .advance (.before (same _ _ plain₁ short) _)
  | call => exact .before (expressionsAgree same forward c plain short) _
  | index => exact .advance (.before (same .lowest _ plain₁ short) _)
  | dot => exact .advance (.before (same .dot _ plain₁ short) _)

theorem extendAgree (same : Matches k expr expr') (forward : ReadsExpressions n expr')
    (level : Precedence) (m : Nat) (left : Tree) (c : Cursor) (plain : c.Plain)
    (short : c.advance.ahead.length < k) :
    Agree c (extend .standard expr level m left) (extend .standard expr' level m left) := by
  induction m generalizing left c with
  | zero => exact .refl _ _
  | succ m ih =>
    unfold extend
    refine .peek (.ite (fun _ => .refl _ _) fun _ => ?_)
    cases continues : Forms.standard.continuation? c.peek.kind with
    | none => exact .refl _ _
    | some form =>
      have plain₁ := plain.moves (.advance c)
      refine .advance (.bind ?_ (continuationRuns forward left c.advance plain₁ continues)
        fun grown c₁ m₁ => ?_)
      · exact continuationAgree same forward c.advance plain₁ (advanceShort (.advance c) short) _ _ _
      · have moves := (Moves.advance c).trans m₁
        cases grown with
        | none => exact .refl _ _
        | some grown => exact ih grown c₁ (plain.moves moves) (advanceShort moves short)

end

theorem oneExpressionConsumes :
    Consumes (fun _ => True) (ReadsExpressions 0) (oneExpression .standard) := by
  intro c plain _ expr expr' forward below level
  have same : Matches c.ahead.length expr expr' := fun level d plain' => below level d plain' trivial
  unfold oneExpression
  refine .curr ?_
  cases opens : Forms.standard.opening? c.curr.kind with
  | none => exact .refl _ _
  | some form =>
    have opened : c.curr.kind ≠ .eof := by
      intro last
      simp [last, Forms.standard, Forms.standardOpening?] at opens
    have short : c.advance.ahead.length < c.ahead.length := by
      obtain ⟨rest, ahead⟩ := plain.currCons opened
      simp [ahead]
    refine .bind (openingAgree same forward c plain opened short _ form)
      (openingRuns forward c plain opens) fun left c₁ m₁ => ?_
    cases left with
    | none => exact .refl _ _
    | some left =>
      exact .remaining (extendAgree same forward level _ left c₁ (plain.moves m₁) (advanceShort m₁ short))

/-! Loops -/

def itemsRound (expr : Reader) (rest : Unit → Parser (List (Option Tree))) :
    Unit → Parser (List (Option Tree)) := fun _ => do
  let item ← expr .lowest
  if ← peekIs (.sign .comma) then
    advance
    advance
    return item :: (← rest ())
  return [item]

def pairsRound (expr : Reader) (rest : Unit → Parser (Option (List (Tree × Tree)))) :
    Unit → Parser (Option (List (Tree × Tree))) := fun _ => do
  if ← peekIs (.sign .rbrace) then
    advance
    return some []
  advance
  let key ← expr .lowest
  if !(← expect (.sign .colon)) then
    return none
  advance
  let value ← expr .lowest
  let some key := key | return none
  let some value := value | return none
  if !(← peekIs (.sign .rbrace)) then
    if !(← expect (.sign .comma)) then
      return none
  return (← rest ()).map ((key, value) :: ·)

def parametersRound (rest : List String → Parser (Option (List String))) :
    List String → Parser (Option (List String)) := fun names => do
  if !(← expect .ident) then
    return none
  let tok ← curr
  if tok.text ∈ names then
    report (.duplicateParameter tok.text) tok.line
    return none
  let names := names ++ [tok.text]
  if ← peekIs (.sign .comma) then
    advance
    rest names
  else if ← expect (.sign .rparen) then
    return some names
  else
    return none

def statementsRound (expr : Reader) (ends : Kind → Bool) (rest : Unit → Parser (List Tree)) :
    Unit → Parser (List Tree) := fun _ => do
  if ends (← curr).kind then
    return []
  let built ← statement expr
  advance
  return built.toList ++ (← rest ())

def extendRound (expr : Reader) (level : Precedence) (rest : Tree → Parser (Option Tree)) :
    Tree → Parser (Option Tree) := fun left => do
  let next ← peek
  if next.kind = .sign .semicolon || next.kind.precedence ≤ level then
    return some left
  match Forms.standard.continuation? next.kind with
  | none => return some left
  | some form =>
      advance
      match ← continuation expr next left form with
      | none => return none
      | some left => rest left

def skipRound (rest : Unit → Parser Unit) : Unit → Parser Unit := fun _ => do
  let tok ← curr
  if tok.kind = .sign .semicolon || tok.kind = .eof then
    return ()
  advance
  rest ()

theorem twiceShorter {c : Cursor} {k : Kind} {n : Nat} (plain : c.Plain) (kind : c.peek.kind = k)
    (proper : k ≠ .eof) (within : c.ahead.length ≤ n) : c.advance.advance.ahead.length < n := by
  have shorter := lengthPeek plain kind proper
  exact movesShort (.advance c.advance) (by omega)

section
variable {n : Nat} {expr : Reader}

theorem itemsConsumes (forward : ReadsExpressions n expr) :
    Consumes (fun _ => True) (fun _ => True) (itemsRound expr) := by
  intro c plain _ rest rest' _ below _
  refine .bind (.refl _ _) (forward .lowest c (by decide) plain) fun item c₁ m₁ =>
    .peekIs (fun comma => .advance (.advance (.before (below () _ ?_ trivial ?_) _))) fun _ => .refl _ _
  · exact plain.moves (movesTwice m₁)
  · exact twiceShorter (plain.moves m₁) comma (by decide) m₁.length

theorem pairsConsumes (forward : ReadsExpressions n expr) :
    Consumes (fun _ => True) (fun _ => True) (pairsRound expr) := by
  intro c plain _ rest rest' _ below _
  unfold pairsRound
  simp only [ifNot]
  refine .peekIs (fun _ => .refl _ _) fun _ => .advance ?_
  have plain₁ := plain.moves (.advance c)
  refine .bind (.refl _ _) (forward .lowest _ (by decide) plain₁) fun key c₁ m₁ =>
    .expect (fun colon => .advance ?_) fun _ _ => .refl _ _
  have plain₂ := plain₁.moves (movesTwice m₁)
  refine .bind (.refl _ _) (forward .lowest _ (by decide) plain₂) fun value c₂ m₂ => ?_
  have less : c₂.ahead.length < c.ahead.length := by
    refine movesShort m₂ (twiceShorter (plain₁.moves m₁) colon (by decide) ?_)
    exact ((Moves.advance c).trans m₁).length
  have plain₃ := plain₂.moves m₂
  cases key with
  | none => exact .refl _ _
  | some key =>
  cases value with
  | none => exact .refl _ _
  | some value =>
    refine .peekIs (fun _ => .before (below () _ plain₃ trivial less) _) fun _ =>
      .expect (fun _ => .before (below () _ (plain₃.moves (.advance _)) trivial ?_) _) fun _ _ => .refl _ _
    exact movesShort (.advance c₂) less

theorem parametersConsumes :
    Consumes (fun c => c.ahead ≠ []) (fun _ => True) parametersRound := by
  intro c plain _ rest rest' _ below names
  unfold parametersRound
  simp only [ifNot]
  refine .expect (fun _ => .curr ?_) fun _ _ => .refl _ _
  split
  · exact .refl _ _
  · have plain₁ := plain.moves (.advance c)
    refine .peekIs (fun comma => .advance (below _ _ (plain₁.moves (.advance _)) ?_ ?_)) fun _ => .refl _ _
    · obtain ⟨tail, ahead⟩ := plain₁.peekCons (by simp [comma])
      rw [Cursor.advanceAhead, ahead]
      simp
    · have length : c.advance.ahead.length ≤ c.ahead.length := (Moves.advance c).length
      have shorter := lengthPeek plain₁ comma (by decide)
      omega

theorem statementPassed {ends : Kind → Bool} (last : ends .eof = true) {c c₁ : Cursor} (plain : c.Plain)
    (goes : ends c.curr.kind = false) (moves : c.Moves c₁) :
    c₁.advance.ahead.length < c.ahead.length := by
  have proper : c.curr.kind ≠ .eof := by
    intro ended
    simp [ended, last] at goes
  obtain ⟨rest, ahead⟩ := plain.currCons proper
  have length := moves.length
  simp only [Cursor.advanceAhead, List.length_drop, ahead, List.length_cons] at *
  omega

theorem statementsConsumes (forward : ReadsExpressions n expr) {ends : Kind → Bool}
    (last : ends .eof = true) : Consumes (fun _ => True) (fun _ => True) (statementsRound expr ends) := by
  intro c plain _ rest rest' _ below _
  refine .curr (.ite (fun _ => .refl _ _) fun goes => ?_)
  refine .bind (.refl _ _) (statementRuns forward c plain) fun built c₁ moves =>
    .advance (.before (below () _ ?_ trivial (statementPassed last plain goes moves)) _)
  exact (plain.moves moves).moves (.advance _)

theorem extendConsumes (forward : ReadsExpressions n expr) (level : Precedence) :
    Consumes (fun _ => True) (fun _ => True) (extendRound expr level) := by
  intro c plain _ rest rest' _ below left
  refine .peek (.ite (fun _ => .refl _ _) fun _ => ?_)
  cases continues : Forms.standard.continuation? c.peek.kind with
  | none => exact .refl _ _
  | some form =>
    have plain₁ := plain.moves (.advance c)
    have proper : c.peek.kind ≠ .eof := by
      intro ended
      simp [ended, Forms.standard, Forms.standardContinuation?, Kind.binaryOp?] at continues
    refine .advance (.bind (.refl _ _) (continuationRuns forward left c.advance plain₁ continues)
      fun grown c₁ m₁ => ?_)
    cases grown with
    | none => exact .refl _ _
    | some grown =>
      refine below grown c₁ (plain₁.moves m₁) trivial (movesShort m₁ ?_)
      have shorter := lengthPeek plain rfl proper
      omega

end

theorem skipSettles : Settles (fun _ => True) skipRound fun _ => synchronize := by
  intro c plain _ n enough last _
  induction n generalizing c with
  | zero => omega
  | succ n ih =>
    rw [Function.iterate_succ_apply']
    unfold Agree skipRound
    rw [runCurr]
    obtain ⟨ahead, finish, errors⟩ := c
    cases ahead with
    | nil =>
      rw [if_pos (by simp [plain.currEnd rfl])]
      rfl
    | cons tok rest =>
      by_cases stops : tok.kind = .sign .semicolon ∨ tok.kind = .eof
      · have same : Cursor.synchronize ⟨tok :: rest, finish, errors⟩ = ⟨tok :: rest, finish, errors⟩ := by
          cases stops with
          | inl semicolon => simp [Cursor.synchronize, semicolon]
          | inr ended => simp [Cursor.synchronize, ended]
        rw [if_pos (by simpa [Cursor.curr] using stops)]
        exact congrArg (fun d => Except.ok ((), d)) same.symm
      · have same : Cursor.synchronize ⟨tok :: rest, finish, errors⟩ =
            Cursor.synchronize ⟨rest, finish, errors⟩ := by
          rw [not_or] at stops
          simp [Cursor.synchronize, stops]
        rw [if_neg (by simpa [Cursor.curr] using stops), runAdvance]
        refine (ih ⟨rest, finish, errors⟩ plain (by simpa using enough)).trans ?_
        exact congrArg (fun d => Except.ok ((), d)) same.symm

structure Terminates : Prop where
  descent : Settles (fun _ => True) (oneExpression .standard) (expression .standard)
  items : Settles (fun _ => True) (itemsRound (expression .standard))
    fun _ => do items (expression .standard) ((← remaining) + 1)
  pairs : Settles (fun _ => True) (pairsRound (expression .standard))
    fun _ => do pairs (expression .standard) ((← remaining) + 1)
  -- A parameter list is entered on its opening parenthesis.
  parameters : Settles (fun c => c.ahead ≠ []) parametersRound
    fun names => do parameters (← remaining) names
  statements : ∀ ends, ends .eof = true → Settles (fun _ => True)
    (statementsRound (expression .standard) ends)
    fun _ => do statements (expression .standard) ends (← remaining)
  extend : ∀ level, Settles (fun _ => True) (extendRound (expression .standard) level)
    fun left => do extend .standard (expression .standard) level (← remaining) left
  skip : Settles (fun _ => True) skipRound fun _ => synchronize

theorem expressionWithinForward (n : Nat) : ReadsExpressions 0 (expressionWithin .standard n) := by
  intro level c low plain
  refine (expressionWithinRuns n level c low plain).weaken fun _ _ _ _ _ short => ?_
  exact absurd short (Nat.not_lt_zero _)

theorem readerTerminates : Terminates where
  descent := oneExpressionConsumes.settles (expressionWithin .standard) (fun _ => rfl) expressionWithinForward
  items := (itemsConsumes (expressionRuns 0)).settles (fun n _ => items _ n) (fun _ => rfl) fun _ => trivial
  pairs := (pairsConsumes (expressionRuns 0)).settles (fun n _ => pairs _ n) (fun _ => rfl) fun _ => trivial
  parameters := parametersConsumes.settlesTight parameters (fun _ => rfl) (fun _ => trivial)
    fun _ _ here empty => absurd empty here
  statements ends last := by
    refine (statementsConsumes (expressionRuns 0) last).settlesTight (fun n _ => statements _ ends n)
      (fun _ => rfl) (fun _ => trivial) fun c plain _ empty rest _ => ?_
    unfold Agree statementsRound
    rw [runCurr, plain.currEnd empty, if_pos last]
    rfl
  extend level := by
    refine (extendConsumes (expressionRuns 0) level).settlesTight (extend .standard _ level)
      (fun _ => rfl) (fun _ => trivial) fun c plain _ empty rest left => ?_
    have ended : c.peek.kind = .eof := (plain.moves (.advance c)).currEnd (by simp [empty])
    unfold Agree extendRound
    rw [runPeek, ended]
    split
    · rfl
    · rfl
  skip := skipSettles

/-! The whole reader -/

theorem statementsStop {n : Nat} {expr : Reader} (forward : ReadsExpressions n expr)
    {ends : Kind → Bool} (last : ends .eof = true) (k : Nat) {c c' : Cursor} {body : List Tree}
    (plain : c.Plain) (enough : c.ahead.length ≤ k)
    (run : (statements expr ends k).run c = .ok (body, c')) : ends c'.curr.kind = true := by
  induction k generalizing c body with
  | zero =>
    cases run
    rw [plain.currEnd (List.eq_nil_of_length_eq_zero (Nat.le_zero.mp enough))]
    exact last
  | succ k ih =>
    unfold statements at run
    rw [runCurr] at run
    cases ended : ends c.curr.kind with
    | true =>
      rw [if_pos ended] at run
      cases run
      exact ended
    | false =>
      rw [if_neg (by simp [ended])] at run
      cases statementRuns forward c plain with
      | inl stopped =>
        obtain ⟨o, failed, _⟩ := stopped
        rw [StateT.run_bind, failed] at run
        cases run
      | inr read =>
        obtain ⟨built, c₁, read, moves, _⟩ := read
        have passed := statementPassed last plain ended moves
        rw [runBind read, runAdvance, StateT.run_bind] at run
        cases rest : (statements expr ends k).run c₁.advance with
        | error o =>
          rw [rest] at run
          cases run
        | ok out =>
          rw [rest] at run
          cases run
          exact ih ((plain.moves moves).moves (.advance _)) (by omega) rest

end Baby.Parser

namespace Baby

theorem programStops (source : String) :
    (∃ tree c, Parser.program.run (Cursor.ofTokens (tokenize source)) = .ok (tree, c) ∧
        c.curr.kind = .eof) ∨
      ∃ o, Parser.program.run (Cursor.ofTokens (tokenize source)) = .error (.oversize o) ∧
        ∃ t ∈ tokenize source, t.kind = .int ∧ Oversize.limit < t.text.toList.length := by
  obtain ⟨ts, finish, tokens, ended, _⟩ := scansEnd (tokenizeScans source)
  rw [tokens, Cursor.ofTokensConcat]
  have plain : Cursor.Plain ⟨ts, finish, []⟩ := ended
  cases Parser.programRuns ⟨ts, finish, []⟩ plain with
  | inl stopped =>
    obtain ⟨o, run, t, member, long⟩ := stopped
    exact .inr ⟨o, run, t, by simp [show t ∈ ts from member], long⟩
  | inr read =>
    obtain ⟨tree, c, run, _, _⟩ := read
    refine .inl ⟨tree, c, run, ?_⟩
    unfold Parser.program at run
    rw [runCurr, runRemaining, StateT.run_bind] at run
    cases body : (Parser.statements (Parser.expression .standard) (fun k => k = .eof)
        ts.length).run ⟨ts, finish, []⟩ with
    | error o =>
      rw [body] at run
      cases run
    | ok out =>
      rw [body] at run
      cases run
      simpa using Parser.statementsStop (Parser.expressionRuns 0) (by decide) _ plain (Nat.le_refl _) body

theorem unaryTabled {k : Kind} (opens : Forms.standard.opening? k = some .unary) : k.unaryOp?.isSome = true := by
  obtain ⟨sign, op, rfl, found⟩ := Parser.openingKind opens
  exact Option.isSome_iff_exists.2 ⟨op, found⟩

theorem binaryTabled {k : Kind} (goesOn : Forms.standard.continuation? k = some .binary) :
    k.binaryOp?.isSome = true := by
  obtain ⟨sign, op, rfl, found⟩ := Parser.continuationKind goesOn
  exact Option.isSome_iff_exists.2 ⟨op, found⟩

/-- Reading ends. Scanning reaches the end of every text, and so do the loops and the descent of the reader
without their bounds. The reader comes to the end token, except that an integer of more than 4300 digits stops
it. No look-up in a table stops it: every kind of token has a literal, and an operator wherever the reader
takes its token for one. -/
theorem readingTerminates (source : String) :
    Scans (Scanner.start source) (tokenize source) ∧ Parser.Terminates ∧
      ((∃ tree c, Parser.program.run (Cursor.ofTokens (tokenize source)) = .ok (tree, c) ∧
          c.curr.kind = .eof ∧ parse source = .ok ⟨tree, c.errors⟩) ∨
        ∃ o, parse source = .error (.oversize o) ∧
          ∃ t ∈ tokenize source, t.kind = .int ∧ 4300 < t.text.toList.length) ∧
      (∀ k : Kind, (Kind.literals.get? k.name).isSome = true) ∧
      (∀ k, Forms.standard.opening? k = some .unary → k.unaryOp?.isSome = true) ∧
      ∀ k, Forms.standard.continuation? k = some .binary → k.binaryOp?.isSome = true := by
  refine ⟨tokenizeScans source, Parser.readerTerminates, ?_, Kind.literalFound, fun _ => unaryTabled,
    fun _ => binaryTabled⟩
  unfold parse parseTokens
  cases programStops source with
  | inl read =>
    obtain ⟨tree, c, run, ended⟩ := read
    exact .inl ⟨tree, c, run, ended, by rw [run]; rfl⟩
  | inr stopped =>
    obtain ⟨o, run, long⟩ := stopped
    exact .inr ⟨o, by rw [run]; rfl, long⟩

end Baby
