import Baby.Grammar.Parse

/-! Runs of readers. A reader comes to an end unless it meets an integer too long to be read; it only
goes forward and only adds to the errors. `Runs` says so, together with what a reader has read in case
no error was reported up to its end. -/
namespace Baby

/-! Stretches -/

/- `Spans l ts l'`: the tokens `l` start with `ts`, and `l'` are those from the last one of `ts` on. -/
inductive Spans : List Token → List Token → List Token → Prop where
  | one (tok rest) : Spans (tok :: rest) [tok] (tok :: rest)
  | more {l ts l'} (tok) (tail : Spans l ts l') : Spans (tok :: l) (tok :: ts) l'

namespace Spans
variable {l l₁ l₂ ts us : List Token}

theorem split (h : Spans l ts l₁) : ∃ tok rest, l₁ = tok :: rest ∧ l = ts ++ rest := by
  induction h with
  | one tok rest => exact ⟨tok, rest, rfl, rfl⟩
  | more tok tail ih =>
    obtain ⟨t, rest, h, same⟩ := ih
    exact ⟨t, rest, h, by simp [same]⟩

theorem append (h : Spans l ts l₁) (k : Spans (l₁.drop 1) us l₂) : Spans l (ts ++ us) l₂ := by
  induction h with
  | one tok rest => exact .more tok k
  | more tok tail ih => exact .more tok (ih k)

theorem cut (h : Spans l (ts ++ us) l₂) (some : ts ≠ []) (more : us ≠ []) :
    ∃ l₁, Spans l ts l₁ ∧ Spans (l₁.drop 1) us l₂ := by
  induction ts generalizing l with
  | nil => exact absurd rfl some
  | cons tok ts ih =>
    cases ts with
    | nil =>
      cases h with
      | one tok rest => exact absurd rfl more
      | more tok tail => exact ⟨_, .one tok _, tail⟩
    | cons tok' ts =>
      cases h with
      | more tok tail =>
        obtain ⟨l₁, first, second⟩ := ih tail (by simp)
        exact ⟨l₁, .more tok first, second⟩

theorem ofAppend (ts rest : List Token) (some : ts ≠ []) : ∃ l', Spans (ts ++ rest) ts l' := by
  induction ts with
  | nil => exact absurd rfl some
  | cons tok ts ih =>
    cases ts with
    | nil => exact ⟨_, .one tok rest⟩
    | cons tok' ts =>
      obtain ⟨l', h⟩ := ih (by simp)
      exact ⟨l', .more tok h⟩

theorem after (ts : List Token) (h : Spans l us l₂) : Spans (ts ++ l) (ts ++ us) l₂ := by
  induction ts with
  | nil => exact h
  | cons tok ts ih => exact .more tok ih

theorem head (h : Spans l ts l₁) : ts.head? = l.head? := by cases h <;> rfl

theorem lastNotEmpty (h : Spans l ts l₁) : l₁ ≠ [] := by
  obtain ⟨tok, rest, same, _⟩ := h.split
  simp [same]

theorem suffix (h : Spans l ts l₁) : l₁ <:+ l := by
  induction h with
  | one tok rest => exact List.suffix_rfl
  | more tok tail ih => exact ih.trans (List.suffix_cons tok _)

end Spans

/-! Cursors -/

namespace Cursor

def on (c : Cursor) (l : List Token) : Cursor := { c with ahead := l }

@[simp] theorem onAhead (c : Cursor) (l : List Token) : (c.on l).ahead = l := rfl

@[simp] theorem onAdvance (c : Cursor) (l : List Token) : (c.on l).advance = c.on (l.drop 1) := rfl

@[simp] theorem onCurrCons (c : Cursor) (tok : Token) (l : List Token) :
    (c.on (tok :: l)).curr = tok := rfl

@[simp] theorem advanceAhead (c : Cursor) : c.advance.ahead = c.ahead.drop 1 := rfl

@[simp] theorem advanceCurr (c : Cursor) : c.advance.curr = c.peek := rfl

theorem ofTokensConcat (l : List Token) (tok : Token) : ofTokens (l ++ [tok]) = ⟨l, tok, []⟩ := by
  simp [ofTokens]

theorem spanStart {c : Cursor} {ts l : List Token} (h : Spans c.ahead ts l) :
    ∃ us, ts = c.curr :: us := by
  obtain ⟨ahead, finish, errors⟩ := c
  cases h with
  | one tok rest => exact ⟨[], rfl⟩
  | more tok tail => exact ⟨_, rfl⟩

structure Moves (c c' : Cursor) : Prop where
  errors : c.errors <+: c'.errors
  finish : c'.finish = c.finish
  ahead : c'.ahead <:+ c.ahead

namespace Moves
variable {c c₁ c₂ : Cursor}

theorem refl (c : Cursor) : c.Moves c := ⟨List.prefix_rfl, rfl, List.suffix_rfl⟩

theorem trans (h : c.Moves c₁) (k : c₁.Moves c₂) : c.Moves c₂ :=
  ⟨h.errors.trans k.errors, k.finish.trans h.finish, k.ahead.trans h.ahead⟩

theorem advance (c : Cursor) : c.Moves c.advance := ⟨List.prefix_rfl, rfl, List.drop_suffix 1 c.ahead⟩

theorem report (c : Cursor) (e : SyntaxError) : c.Moves (c.report e) :=
  ⟨List.prefix_append _ _, rfl, List.suffix_rfl⟩

theorem synchronize (c : Cursor) : c.Moves c.synchronize :=
  ⟨List.prefix_rfl, rfl, List.dropWhile_suffix _⟩

theorem clean (h : c.Moves c₁) (none : c₁.errors = []) : c.errors = [] := by
  simpa [none] using h.errors

theorem length (h : c.Moves c₁) : c₁.ahead.length ≤ c.ahead.length := h.ahead.length_le

end Moves

def Plain (c : Cursor) : Prop := c.finish.kind = .eof

def Long (c : Cursor) : Prop :=
  ∃ t ∈ c.ahead, t.kind = .int ∧ Oversize.limit < t.text.toList.length

theorem Long.moves {c c₁ : Cursor} (h : c₁.Long) (k : c.Moves c₁) : c.Long := by
  obtain ⟨t, member, long⟩ := h
  exact ⟨t, k.ahead.subset member, long⟩

namespace Plain
variable {c c₁ : Cursor}

theorem moves (h : c.Plain) (k : c.Moves c₁) : c₁.Plain :=
  (congrArg Token.kind k.finish).trans h

theorem currEnd (h : c.Plain) (empty : c.ahead = []) : c.curr.kind = .eof := by
  rw [curr, empty]
  exact h

theorem currCons (h : c.Plain) (more : c.curr.kind ≠ .eof) : ∃ rest, c.ahead = c.curr :: rest := by
  cases ahead : c.ahead with
  | nil => exact absurd (h.currEnd ahead) more
  | cons tok rest => exact ⟨rest, by simp [curr, ahead]⟩

theorem peekCons (h : c.Plain) (more : c.peek.kind ≠ .eof) :
    ∃ rest, c.ahead = c.curr :: c.peek :: rest := by
  obtain ⟨rest, same⟩ := (h.moves (.advance c)).currCons more
  cases ahead : c.ahead with
  | nil => simp [ahead] at same
  | cons tok tail =>
    simp only [advanceAhead, ahead, List.drop_succ_cons, List.drop_zero] at same
    have here : c.curr = tok := by simp [curr, ahead]
    exact ⟨rest, by rw [here, same]; rfl⟩

end Plain
end Cursor

/-! Tables -/

theorem Kind.literalFound (k : Kind) : k.literal?.isSome = true := by
  have named : k.name ∈ literals.keys := by
    refine Dict.foldedKey (.inr ?_)
    rw [List.map_append, List.map_append, List.map_map, List.map_map]
    cases k with
    | keyword w =>
      have listed : w ∈ Keyword.all := by cases w <;> decide
      exact List.mem_append_left _ (List.mem_append_right _ (List.mem_map_of_mem listed))
    | sign s =>
      have listed : s ∈ Sign.all := by cases s <;> decide
      exact List.mem_append_left _ (List.mem_append_left _ (List.mem_map_of_mem listed))
    | int | string | ident | illegal | eof => exact List.mem_append_right _ (by decide)
  obtain ⟨text, found⟩ := Dict.containsGet.1 (decide_eq_true named)
  rw [literal?, found]
  rfl

theorem Token.spellingFound (t : Token) : ∃ text, t.spelling? = some text := by
  unfold spelling?
  split
  · exact Option.isSome_iff_exists.1 t.kind.literalFound
  · exact ⟨t.text, rfl⟩

namespace Parser
variable {expr : Reader} {tok : Token} {op : Op}

theorem reportPeekFound (kind : Kind) :
    reportPeek kind = peek >>= fun next => report (.expected kind next) next.line := by
  refine bind_congr fun next => ?_
  obtain ⟨text, found⟩ := next.spellingFound
  rw [found]

theorem operatorFound {table : Kind → Option Op} (found : table tok.kind = some op) :
    operator table tok = pure op := by
  rw [operator, found]

theorem openingUnary (found : tok.kind.unaryOp? = some op) :
    opening expr tok .unary = advance >>= fun _ => do return (← expr .unary).map (.unary op · tok.line) := by
  unfold opening
  refine bind_congr fun _ => bind_congr fun operand => ?_
  cases operand with
  | none => rfl
  | some operand =>
    rw [operatorFound found]
    rfl

theorem continuationBinary (found : tok.kind.binaryOp? = some op) (left : Tree) :
    continuation expr tok left .binary =
      advance >>= fun _ => do return (← expr tok.kind.precedence).map (.binary op left · tok.line) := by
  unfold continuation
  refine bind_congr fun _ => bind_congr fun right => ?_
  cases right with
  | none => rfl
  | some right =>
    rw [operatorFound found]
    rfl

end Parser

/-! Runs -/

/- The reader ends; and if no error was reported before its end, it gave what it should. -/
def Runs {α : Type} (c : Cursor) (p : Parser α) (post : α → Cursor → Prop) : Prop :=
  (∃ o, p.run c = .error (.oversize o) ∧ c.Long) ∨
    ∃ a c', p.run c = .ok (a, c') ∧ c.Moves c' ∧ (c'.errors = [] → post a c')

namespace Runs
variable {α β : Type} {c : Cursor} {p : Parser α} {f : α → Parser β} {post : α → Cursor → Prop}
  {goal : β → Cursor → Prop}

theorem pure {a : α} (h : c.errors = [] → post a c) : Runs c (Pure.pure a) post :=
  .inr ⟨a, c, rfl, .refl c, h⟩

theorem weaken {post' : α → Cursor → Prop} (h : Runs c p post)
    (imp : ∀ a c', c.Moves c' → c'.errors = [] → post a c' → post' a c') : Runs c p post' := by
  rcases h with stopped | ⟨a, c', run, moves, h⟩
  · exact .inl stopped
  · exact .inr ⟨a, c', run, moves, fun clean => imp a c' moves clean (h clean)⟩

theorem bind (first : Runs c p post)
    (rest : ∀ a c₁, c.Moves c₁ → (c₁.errors = [] → post a c₁) → Runs c₁ (f a) goal) :
    Runs c (p >>= f) goal := by
  rcases first with ⟨o, run, long⟩ | ⟨a, c₁, run, moves, h⟩
  · refine .inl ⟨o, ?_, long⟩
    rw [StateT.run_bind, run]
    rfl
  have next : (p >>= f).run c = (f a).run c₁ := by
    rw [StateT.run_bind, run]
    rfl
  rcases rest a c₁ moves h with ⟨o, run', long⟩ | ⟨b, c₂, run', moves', h'⟩
  · exact .inl ⟨o, next.trans run', long.moves moves⟩
  · exact .inr ⟨b, c₂, next.trans run', moves.trans moves', h'⟩

theorem spoiled (h : Runs c p fun _ _ => True) (bad : c.errors ≠ []) : Runs c p post :=
  h.weaken fun _ _ moves clean _ => absurd (moves.clean clean) bad

theorem step {c₁ : Cursor} {q : Parser α} (moves : c.Moves c₁) (h : Runs c₁ q post)
    (run : p.run c = q.run c₁) : Runs c p post := by
  rcases h with ⟨o, same, long⟩ | ⟨a, c', same, moves', h⟩
  · exact .inl ⟨o, run.trans same, long.moves moves⟩
  · exact .inr ⟨a, c', run.trans same, moves.trans moves', h⟩

theorem curr {f : Token → Parser β} (h : Runs c (f c.curr) goal) : Runs c (Parser.curr >>= f) goal :=
  step (.refl c) h rfl

theorem peek {f : Token → Parser β} (h : Runs c (f c.peek) goal) : Runs c (Parser.peek >>= f) goal :=
  step (.refl c) h rfl

theorem remaining {f : Nat → Parser β} (h : Runs c (f c.ahead.length) goal) :
    Runs c (Parser.remaining >>= f) goal :=
  step (.refl c) h rfl

theorem peekIs {kind : Kind} {p q : Parser β} (yes : c.peek.kind = kind → Runs c p goal)
    (no : c.peek.kind ≠ kind → Runs c q goal) :
    Runs c (Parser.peekIs kind >>= fun b => if b = true then p else q) goal := by
  by_cases h : c.peek.kind = kind
  · exact step (.refl c) (yes h) (by simp [Parser.peekIs, h])
  · exact step (.refl c) (no h) (by simp [Parser.peekIs, h])

theorem advance {f : Unit → Parser β} (h : Runs c.advance (f ()) goal) :
    Runs c (Parser.advance >>= f) goal :=
  step (.advance c) h rfl

theorem synchronize {f : Unit → Parser β} (h : Runs c.synchronize (f ()) goal) :
    Runs c (Parser.synchronize >>= f) goal :=
  step (.synchronize c) h rfl

theorem report {complaint : Complaint} {line : Nat} {f : Unit → Parser β}
    (h : Runs (c.report ⟨complaint, line⟩) (f ()) fun _ _ => True) :
    Runs c (Parser.report complaint line >>= f) goal :=
  step (.report c _) (h.spoiled (by simp [Cursor.report])) rfl

theorem reportPeek {kind : Kind} {f : Unit → Parser β}
    (h : Runs (c.report ⟨.expected kind c.peek, c.peek.line⟩) (f ()) fun _ _ => True) :
    Runs c (Parser.reportPeek kind >>= f) goal := by
  rw [Parser.reportPeekFound]
  exact step (.report c _) (h.spoiled (by simp [Cursor.report])) rfl

theorem expect {kind : Kind} {p q : Parser β} (yes : c.peek.kind = kind → Runs c.advance p goal)
    (no : ∀ c₁, c.Moves c₁ → Runs c₁ q fun _ _ => True) :
    Runs c (Parser.expect kind >>= fun b => if b = true then p else q) goal := by
  by_cases h : c.peek.kind = kind
  · refine step (.advance c) (yes h) ?_
    simp [Parser.expect, Parser.peekIs, Parser.advance, h]
  · refine step (.report c ⟨.expected kind c.peek, c.peek.line⟩)
      ((no _ (.report c _)).spoiled (by simp [Cursor.report])) ?_
    simp [Parser.expect, Parser.peekIs, Parser.reportPeekFound, Parser.peek, Parser.report, h]

end Runs
end Baby
