import Baby.Proofs.WellFormed
import Baby.Workspace

/-! The lines of syntax errors. An error is reported at the current token on entering a construct or at the
token after it on leaving one, and never at an earlier one again; so the lines of the errors grow with those
of the tokens, and every one of them is a line of the text. -/
namespace Baby

/-! Lines of tokens -/

def LinesGrow (ts : List Token) : Prop := ts.Pairwise fun t u => t.line ≤ u.line

theorem Scanner.skipWithin {s : Scanner} {r : Rule} {l : List Char} (found : Rule.first? s.rest = some (r, l))
    {line : Nat} (low : (s.skip r l).line ≤ line)
    (high : line ≤ (s.skip r l).line + (s.skip r l).rest.count '\n') :
    s.line ≤ line ∧ line ≤ s.line + s.rest.count '\n' := by
  have counted := Scanner.skipLine found
  rw [skipSplit found, List.count_append]
  omega

theorem scansLines {s : Scanner} {ts : List Token} (h : Scans s ts) :
    LinesGrow ts ∧ ∀ t ∈ ts, s.line ≤ t.line ∧ t.line ≤ s.line + s.rest.count '\n' := by
  induction h with
  | finish done => simp [LinesGrow]
  | trivia found skipped tail ih =>
    refine ⟨ih.1, fun t member => ?_⟩
    obtain ⟨low, high⟩ := ih.2 t member
    exact Scanner.skipWithin found low high
  | token found kept tail ih =>
    obtain ⟨grow, bounds⟩ := ih
    have bounds' : ∀ t ∈ _, _ := fun t member => Scanner.skipWithin found (bounds t member).1 (bounds t member).2
    refine ⟨List.pairwise_cons.2 ⟨fun t member => (bounds' t member).1, grow⟩, ?_⟩
    exact List.forall_mem_cons.2 ⟨⟨Nat.le_refl _, Nat.le_add_right _ _⟩, bounds'⟩

theorem tokenLines (source : String) :
    LinesGrow (tokenize source) ∧
      ∀ t ∈ tokenize source, 1 ≤ t.line ∧ t.line ≤ 1 + source.toList.count '\n' :=
  scansLines (tokenizeScans source)

/-! Cursors -/

namespace Cursor
variable {ts : List Token} {c c' : Cursor} {line line' : Nat}

theorem Moves.advanceBoth (moves : c.Moves c') : c.advance.Moves c'.advance := by
  refine ⟨moves.errors, moves.finish, ?_⟩
  obtain ⟨front, split⟩ := moves.ahead
  rw [advanceAhead, advanceAhead, ← split]
  cases front with
  | nil => exact List.suffix_rfl
  | cons t front => exact (List.drop_suffix 1 _).trans (List.suffix_append front _)

theorem Amid.forward (h : c.Amid ts) (grow : LinesGrow ts) (moves : c.Moves c') :
    c.curr.line ≤ c'.curr.line := by
  obtain ⟨before, rfl⟩ := h
  have grow := (List.pairwise_append.1 grow).2.1
  have member : c'.curr ∈ c.ahead ++ [c.finish] := (Amid.moves List.suffix_rfl moves).curr
  unfold Cursor.curr at member ⊢
  cases ahead : c.ahead with
  | nil =>
    rw [ahead] at member
    rw [List.mem_singleton.1 member]
    exact Nat.le_refl _
  | cons t rest =>
    rw [ahead] at member grow
    cases List.mem_cons.1 member with
    | inl same =>
      rw [same]
      exact Nat.le_refl _
    | inr later => exact (List.pairwise_cons.1 grow).1 _ later

/- All errors up to here stand in the order of their lines, which are lines of tokens up to `line`. -/
structure Told (ts : List Token) (line : Nat) (c : Cursor) : Prop where
  amid : c.Amid ts
  ordered : c.errors.Pairwise fun d e => d.line ≤ e.line
  bounded : ∀ e ∈ c.errors, e.line ≤ line
  real : ∀ e ∈ c.errors, ∃ t ∈ ts, t.line = e.line

namespace Told

theorem moves (h : c.Told ts line) (moves : c.Moves c') (same : c'.errors = c.errors) (later : line ≤ line') :
    c'.Told ts line' where
  amid := h.amid.moves moves
  ordered := by simpa only [same] using h.ordered
  bounded e member := Nat.le_trans (h.bounded e (same ▸ member)) later
  real e member := h.real e (same ▸ member)

theorem report {t : Token} (h : c.Told ts t.line) (member : t ∈ ts) (complaint : Complaint) :
    (c.report ⟨complaint, t.line⟩).Told ts t.line where
  amid := h.amid.moves (.report _ _)
  ordered := List.pairwise_append.2 ⟨h.ordered, List.pairwise_singleton _ _, fun d old e last => by
    rw [List.mem_singleton.1 last]
    exact h.bounded d old⟩
  bounded := List.forall_mem_append.2 ⟨h.bounded, List.forall_mem_singleton.2 (Nat.le_refl _)⟩
  real := List.forall_mem_append.2 ⟨h.real, List.forall_mem_singleton.2 ⟨t, member, rfl⟩⟩

end Told
end Cursor

def Parser.Discipline.lines (source : String) : Discipline where
  entered c := c.Told (tokenize source) c.curr.line
  left c := c.Told (tokenize source) c.peek.line
  plain h := h.amid.plain
  proper h := scansProper (tokenizeScans source) _ h.amid.curr
  leave {c} h := h.moves (.refl c) rfl (h.amid.forward (tokenLines source).1 (.advance c))
  advance {c} h := h.moves (.advance c) rfl (Nat.le_refl _)
  synchronize {c} h := h.moves (.synchronize c) rfl
    ((h.amid.moves (.advance c)).forward (tokenLines source).1 (Cursor.Moves.synchronize c).advanceBoth)
  lack {c} _ h := h.report (h.amid.moves (.advance c)).curr _
  complain _ h := h.report h.amid.curr _

theorem errorsTold {source : String} {parsed : Parsed} (read : parse source = .ok parsed) :
    (parsed.errors.Pairwise fun d e => d.line ≤ e.line) ∧
      ∀ e ∈ parsed.errors, ∃ t ∈ tokenize source, t.line = e.line := by
  have start : (Cursor.ofTokens (tokenize source)).Told (tokenize source)
      (Cursor.ofTokens (tokenize source)).curr.line :=
    ⟨Cursor.amidStart source, .nil, by simp [Cursor.ofTokens], by simp [Cursor.ofTokens]⟩
  obtain ⟨c, run, errors⟩ := parsedRan read
  have told := (Parser.programBuild (D := .lines source) start run).1
  rw [errors]
  exact ⟨told.ordered, told.real⟩

/-! Documents -/

theorem lineCount (cs : List Char) : (cs.splitOn '\n').length = 1 + cs.count '\n' := by
  induction cs with
  | nil => rfl
  | cons c cs ih =>
    unfold List.splitOn at ih ⊢
    rw [List.splitOnP_cons_eq_if_modifyHead, List.count_cons]
    split
    · rw [List.length_cons, ih]
      omega
    · rw [List.length_modifyHead, ih]
      omega

/-- The message of each error ends with its line, the lines are those of tokens and come in their order; and a
document shows each error once, in the same order, on a line that it has. -/
theorem errorsInSourceOrder {source : String} {parsed : Parsed} (read : parse source = .ok parsed)
    (uri : String) :
    List.Forall₂ (fun message line => ∃ text, message = text ++ " on line " ++ toString line)
        (parsed.errors.map SyntaxError.message) (parsed.errors.map SyntaxError.line) ∧
      (∀ line ∈ parsed.errors.map SyntaxError.line,
        (∃ t ∈ tokenize source, t.line = line) ∧ 1 ≤ line ∧ line ≤ 1 + source.toList.count '\n') ∧
      (parsed.errors.map SyntaxError.line).Pairwise (· ≤ ·) ∧
      ∃ shown, analyze uri source = .ok shown ∧
        List.Forall₂ (fun e d => d.message = e.message ∧ d.range.line + 1 = e.line ∧
          d.range.line < (source.toList.splitOn '\n').length) parsed.errors shown.diagnostics := by
  obtain ⟨ordered, real⟩ := errorsTold read
  have within (e : SyntaxError) (member : e ∈ parsed.errors) :
      1 ≤ e.line ∧ e.line ≤ 1 + source.toList.count '\n' := by
    obtain ⟨t, token, line⟩ := real e member
    rw [← line]
    exact (tokenLines source).2 t token
  refine ⟨?_, ?_, ?_, ?_⟩
  · rw [List.forall₂_map_left_iff, List.forall₂_map_right_iff, List.forall₂_same]
    exact fun e _ => ⟨e.complaint.message, rfl⟩
  · simpa using fun e member => ⟨real e member, within e member⟩
  · exact List.pairwise_map.2 ordered
  · refine ⟨⟨_, parsed.errors.map .ofError⟩, by rw [analyze, read]; rfl, ?_⟩
    rw [List.forall₂_map_right_iff, List.forall₂_same]
    intro e member
    obtain ⟨low, high⟩ := within e member
    have line : (Diagnostic.ofError e).range.line = e.line - 1 := rfl
    rw [line, lineCount]
    exact ⟨rfl, by omega, by omega⟩

def broken : String := "let a = \"x\ny\" + ;\nlet = 3;\n\nf(a, "

theorem errorsInSourceOrderBroken :
    ∃ parsed shown, parse broken = .ok parsed ∧ parsed.errors.map SyntaxError.line = [2, 3, 5, 5] ∧
      analyze "file:///broken" broken = .ok shown ∧
      List.Forall₂ (fun e d => d.message = e.message ∧ d.range.line + 1 = e.line ∧
        d.range.line < (broken.toList.splitOn '\n').length) parsed.errors shown.diagnostics := by
  have read : (parse broken).toOption.map (fun parsed => parsed.errors.map SyntaxError.line) =
      some [2, 3, 5, 5] := by decide +kernel
  cases run : parse broken with
  | error o =>
    rw [run] at read
    cases read
  | ok parsed =>
    rw [run] at read
    obtain ⟨shown, analyzed, each⟩ := (errorsInSourceOrder run "file:///broken").2.2.2
    exact ⟨parsed, shown, rfl, Option.some.inj read, analyzed, each⟩

end Baby
