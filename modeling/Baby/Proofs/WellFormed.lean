import Baby.Proofs.Layout
import Baby.Proofs.Recovery

/-! Every tree that is read is well formed, also where the source has errors, and nothing is left out of it
without an error that says so. The tokens of a source are proper ones, so it is enough that a reader stands
somewhere among them. -/
namespace Baby

/-! Tokens of a source -/

namespace Rule

theorem kindIdent {r : Rule} {l : List Char} (kind : r.kind l = .ident) :
    r = .word ∧ Keyword.ofText? (String.ofList l) = none := by
  cases r with
  | word =>
    unfold Rule.kind at kind
    cases known : Keyword.ofText? (String.ofList l) with
    | none => exact ⟨rfl, rfl⟩
    | some w => simp [known] at kind
  | _ => cases kind

theorem tokenProper {r : Rule} {cs l : List Char} (matched : r.match? cs = some l) (line : Nat) :
    (Token.mk (r.kind l) (r.text l) line).Proper := by
  constructor
  · intro kind
    obtain ⟨rfl, unknown⟩ := kindIdent kind
    obtain ⟨c, parts, rfl, start, rest⟩ := wordMatch matched
    show isName (String.ofList (c :: parts)) = true
    unfold isName
    rw [String.toList_ofList, unknown]
    simp [start, rest]
  · intro kind
    have quoted : r = .string := Decidable.by_contra fun other => kindString other l kind
    subst quoted
    obtain ⟨body, rfl, plain⟩ := stringMatch matched
    simpa [Rule.text] using plain

end Rule

theorem scansProper {s : Scanner} {ts : List Token} (h : Scans s ts) : ∀ t ∈ ts, t.Proper := by
  induction h with
  | finish done => exact List.forall_mem_singleton.2 ⟨by simp, by simp⟩
  | trivia _ _ _ ih => exact ih
  | token found _ _ ih => exact List.forall_mem_cons.2 ⟨Rule.tokenProper (Rule.firstMatches found) _, ih⟩

/-! Places among the tokens -/

namespace Cursor

def Amid (ts : List Token) (c : Cursor) : Prop := c.ahead ++ [c.finish] <:+ ts

theorem Amid.moves {ts : List Token} {c c' : Cursor} (h : c.Amid ts) (moves : c.Moves c') : c'.Amid ts := by
  obtain ⟨front, split⟩ := moves.ahead
  refine List.IsSuffix.trans ⟨front, ?_⟩ h
  rw [moves.finish, ← split, List.append_assoc]

theorem Amid.curr {ts : List Token} {c : Cursor} (h : c.Amid ts) : c.curr ∈ ts := by
  refine h.subset ?_
  unfold Cursor.curr
  cases c.ahead with
  | nil => exact List.mem_singleton.2 rfl
  | cons t rest => exact List.mem_cons_self

theorem Amid.plain {source : String} {c : Cursor} (h : c.Amid (tokenize source)) : c.Plain := by
  obtain ⟨ts, finish, tokens, ended, _⟩ := scansEnd (tokenizeScans source)
  obtain ⟨front, split⟩ := h
  rw [tokens, ← List.append_assoc] at split
  have same : c.finish = finish := by simpa using (List.append_inj' split rfl).2
  exact (congrArg Token.kind same).trans ended

theorem amidStart (source : String) : (ofTokens (tokenize source)).Amid (tokenize source) := by
  obtain ⟨ts, finish, tokens, _, _⟩ := scansEnd (tokenizeScans source)
  rw [tokens, ofTokensConcat]
  exact List.suffix_rfl

end Cursor

namespace Parser

def Discipline.places (source : String) : Discipline where
  entered := Cursor.Amid (tokenize source)
  left := Cursor.Amid (tokenize source)
  plain := Cursor.Amid.plain
  proper h := scansProper (tokenizeScans source) _ h.curr
  leave h := h
  advance h := h.moves (.advance _)
  synchronize h := h.moves (.synchronize _)
  lack _ h := h.moves (.report _ _)
  complain _ h := h.moves (.report _ _)

def Explains {α : Type} (c : Cursor) (p : Parser (Option α)) : Prop :=
  ∀ c', p.run c = .ok (none, c') → c.errors.length < c'.errors.length

theorem Builds.explains {α : Type} {D : Discipline} {c : Cursor} {p : Parser (Option α)} {good : α → Prop}
    (h : Builds D c p good) : Explains c p :=
  fun c' run => (h none c' run).1.told rfl

structure NeverSilent (c : Cursor) : Prop where
  expression : ∀ level, Explains c (Parser.expression .standard level)
  statement : Explains c (Parser.statement (Parser.expression .standard))
  opening : ∀ form, Forms.standard.opening? c.curr.kind = some form →
    Explains c (Parser.opening (Parser.expression .standard) c.curr form)
  continuation : ∀ left form, left.Formed .expression → Forms.standard.continuation? c.curr.kind = some form →
    Explains c (Parser.continuation (Parser.expression .standard) c.curr left form)
  list : ∀ close, Explains c (expressions (Parser.expression .standard) close)
  parameters : c.curr.kind = .sign .lparen → Explains c parameterList
  condition : Explains c (Parser.condition (Parser.expression .standard))
  definition : Explains c (Parser.definition (Parser.expression .standard))
  assignment : c.curr.kind = .ident → Explains c
    (binding (Parser.expression .standard) fun name op value => .assign name op value c.curr.line)
  returning : Explains c (Parser.returning (Parser.expression .standard))
  bare : Explains c (Parser.bare (Parser.expression .standard))

theorem neverSilent {source : String} {c : Cursor} (h : c.Amid (tokenize source)) : NeverSilent c := by
  have here : (Discipline.places source).entered c := h
  have trees := expressionBuild (Discipline.places source)
  exact {
    expression := fun level => (trees level c here).explains
    statement := (statementBuild trees here).explains
    opening := fun _ opens => (openingBuild trees here opens).explains
    continuation := fun _ _ operand continues => (continuationBuild trees operand here continues).explains
    list := fun close => (expressionsBuild trees close here).explains
    parameters := fun started => (parameterListBuild (Discipline.leave _ here) h.plain
      (by simp [started])).explains
    condition := (conditionBuild trees here).explains
    definition := (definitionBuild trees here).explains
    assignment := fun kind => (bindingBuild trees here kind
      fun _ _ _ s named operator value => .assign named s operator value).explains
    returning := (returningBuild trees here).explains
    bare := (bareBuild trees here).explains }

end Parser

/-- Whatever source is read, its tree is well formed; and no reader that is entered anywhere in it gives
nothing before it has reported an error. -/
theorem treesWellFormed (source : String) :
    (∀ parsed, parse source = .ok parsed → parsed.tree.Formed .program) ∧
      ∀ c : Cursor, c.Amid (tokenize source) → Parser.NeverSilent c := by
  refine ⟨fun parsed read => ?_, fun c => Parser.neverSilent⟩
  obtain ⟨c, run, _⟩ := parsedRan read
  exact (Parser.programBuild (D := .places source) (Cursor.amidStart source) run).2

def damaged : String := "let f = fun(a, a) \x7b 1 \x7d; let y = [1, ; if (y) \x7b let = 2; y(3 \x7d else \x7b \x7d"

theorem treesWellFormedDamaged :
    ∃ parsed, parse damaged = .ok parsed ∧ parsed.errors.length = 5 ∧ parsed.tree.Formed .program := by
  have read : (parse damaged).toOption.map (fun parsed => parsed.errors.length) = some 5 := by decide +kernel
  cases run : parse damaged with
  | error o =>
    rw [run] at read
    cases read
  | ok parsed =>
    rw [run] at read
    exact ⟨parsed, rfl, Option.some.inj read, (treesWellFormed damaged).1 parsed run⟩

end Baby
