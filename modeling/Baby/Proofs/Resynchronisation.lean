import Mathlib.Data.List.Forall2
import Baby.Proofs.Rereading
import Baby.Proofs.Uniformity
import Baby.Workspace

/-! Lists of statements between semicolons. Such a list is read as each of its statements is by itself; those
that are malformed are reported and left out, and take nothing of the next one with them. Only an integer that
is too long to be read ends it all. -/
namespace Baby

structure Segment where
  tokens : List Token
  semicolon : Semicolon
  unbroken : Unbroken tokens
  starts : Parser.Starts tokens

def Segment.sealed (s : Segment) : List Token := s.tokens ++ [s.semicolon.1]

def together (segments : List Segment) (line : Nat) : Except Halt Parsed :=
  parseTokens (segments.flatMap Segment.sealed ++ [⟨.eof, "", line⟩])

namespace Segment

def alone (line : Nat) (s : Segment) : Except Halt Parsed := together [s] line

def reader : Parser (Option Tree) := Parser.statement (Parser.expression .standard)

def Stops (s : Segment) (o : Halt) : Prop :=
  ∀ (x : Setting) errors, reader.run (x.cursor s.semicolon s.tokens errors) = .error o

/- Whatever follows, this is what is read as the statement of the segment, up to its semicolon. -/
def Yields (s : Segment) (built : Option Tree) : Prop :=
  ∀ (x : Setting) errors, ∃ es,
    reader.run (x.cursor s.semicolon s.tokens errors) = .ok (built, x.cursor s.semicolon [] (errors ++ es)) ∧
      (built.isSome = true ↔ es = [])

theorem outcome (s : Segment) : (∃ o, s.Stops o) ∨ ∃ built, s.Yields built := by
  cases Parser.statementUniform s.semicolon s.unbroken s.starts with
  | inl stopped => exact .inl stopped
  | inr ends =>
    obtain ⟨built, r, clean, _, ⟨given, rfl⟩, run⟩ := ends
    refine .inr ⟨built, fun x errors => ?_⟩
    obtain ⟨es, run, told⟩ := run x errors
    exact ⟨es, run, by rw [← given, told, true_and]⟩

/-! Rounds -/

def rounds (n : Nat) : Parser (List Tree) :=
  Parser.statements (Parser.expression .standard) (fun k => k = .eof) n

theorem roundsDone {finish : Token} (ended : finish.kind = .eof) (n : Nat) (errors : List SyntaxError) :
    (rounds n).run ⟨[], finish, errors⟩ = .ok ([], ⟨[], finish, errors⟩) := by
  cases n with
  | zero => rfl
  | succ n =>
    have last : (Cursor.mk [] finish errors).curr.kind = .eof := ended
    rw [rounds, Parser.statements, runCurr, if_pos (decide_eq_true last)]
    rfl

section
variable {s : Segment} (x : Setting) (n : Nat) (errors : List SyntaxError)

theorem roundStarts :
    (rounds (n + 1)).run (x.cursor s.semicolon s.tokens errors) = (do
      let built ← reader
      Parser.advance
      return built.toList ++ (← rounds n)).run (x.cursor s.semicolon s.tokens errors) := by
  obtain ⟨t, rest, split, _, more⟩ := s.starts.begins
  have first : (x.cursor s.semicolon s.tokens errors).curr = t := by
    rw [split]
    rfl
  rw [rounds, Parser.statements, runCurr, first, if_neg (by simpa using more)]
  rfl

theorem Stops.round {o : Halt} (h : s.Stops o) :
    (rounds (n + 1)).run (x.cursor s.semicolon s.tokens errors) = .error o := by
  rw [roundStarts, StateT.run_bind, h]
  rfl

theorem Yields.round {built : Option Tree} (h : s.Yields built) : ∃ es, (built.isSome = true ↔ es = []) ∧
    (∀ o, (rounds n).run ⟨x.rest, x.finish, errors ++ es⟩ = .error o →
      (rounds (n + 1)).run (x.cursor s.semicolon s.tokens errors) = .error o) ∧
    ∀ others c, (rounds n).run ⟨x.rest, x.finish, errors ++ es⟩ = .ok (others, c) →
      (rounds (n + 1)).run (x.cursor s.semicolon s.tokens errors) = .ok (built.toList ++ others, c) := by
  obtain ⟨es, run, told⟩ := h x errors
  have next : (x.cursor s.semicolon [] (errors ++ es)).advance = ⟨x.rest, x.finish, errors ++ es⟩ := rfl
  refine ⟨es, told, fun o stopped => ?_, fun others c read => ?_⟩
  · rw [roundStarts, runBind run, runAdvance, next, StateT.run_bind, stopped]
    rfl
  · rw [roundStarts, runBind run, runAdvance, next, runBind read]
    rfl

end

/-! Lists of segments -/

def followed (segments : List Segment) (line : Nat) : Setting where
  rest := segments.flatMap Segment.sealed
  finish := ⟨.eof, "", line⟩
  next := by
    cases segments with
    | nil => rfl
    | cons s rest =>
      obtain ⟨t, after, split, begins, _⟩ := s.starts.begins
      simpa [Segment.sealed, split] using begins

def start (segments : List Segment) (line : Nat) (errors : List SyntaxError) : Cursor :=
  ⟨segments.flatMap Segment.sealed, ⟨.eof, "", line⟩, errors⟩

theorem startCons (s : Segment) (segments : List Segment) (line : Nat) (errors : List SyntaxError) :
    start (s :: segments) line errors = (followed segments line).cursor s.semicolon s.tokens errors := by
  simp [start, Setting.cursor, followed, Segment.sealed]

section
variable {segments : List Segment} {line : Nat}

theorem togetherStops {o : Halt}
    (run : (rounds (segments.flatMap Segment.sealed).length).run (start segments line []) = .error o) :
    together segments line = .error o := by
  unfold rounds start at run
  unfold together parseTokens Parser.program
  rw [Cursor.ofTokensConcat, runCurr, runRemaining, StateT.run_bind, run]
  rfl

theorem togetherReads {body : List Tree} {c : Cursor}
    (run : (rounds (segments.flatMap Segment.sealed).length).run (start segments line []) = .ok (body, c)) :
    together segments line = .ok ⟨.program body (start segments line []).curr.line, c.errors⟩ := by
  unfold rounds start at run
  unfold together parseTokens Parser.program
  rw [Cursor.ofTokensConcat, runCurr, runRemaining, runBind run]
  rfl

end

theorem sealedLength (s : Segment) : ([s].flatMap Segment.sealed).length = s.tokens.length + 1 := by
  simp [Segment.sealed]

theorem Stops.alone {s : Segment} {o : Halt} (h : s.Stops o) (line : Nat) : s.alone line = .error o := by
  refine togetherStops ?_
  rw [sealedLength, startCons]
  exact h.round _ _ _

theorem Yields.alone {s : Segment} {built : Option Tree} (h : s.Yields built) (line : Nat) :
    ∃ p, s.alone line = .ok p ∧ p.tree.statements = built.toList ∧ (built.isSome = true ↔ p.errors = []) := by
  obtain ⟨es, told, _, read⟩ := h.round (followed [] line) s.tokens.length []
  have run := read [] _ (roundsDone rfl _ _)
  rw [← startCons, ← sealedLength, List.append_nil] at run
  exact ⟨_, togetherReads run, rfl, told⟩

structure Agrees (ps : List Parsed) (body : List Tree) (reports : List (List SyntaxError)) : Prop where
  body : body = (ps.filter (·.errors.isEmpty)).flatMap (·.tree.statements)
  one : ∀ p ∈ ps, p.errors = [] → ∃ t, p.tree.statements = [t]
  reports : List.Forall₂ (fun p es => p.errors = [] ↔ es = []) ps reports

theorem Agrees.cons {ps : List Parsed} {body : List Tree} {reports : List (List SyntaxError)}
    (h : Agrees ps body reports) {p : Parsed} {built : Option Tree} {es : List SyntaxError}
    (statements : p.tree.statements = built.toList) (given : built.isSome = true ↔ p.errors = [])
    (told : built.isSome = true ↔ es = []) : Agrees (p :: ps) (built.toList ++ body) (es :: reports) where
  body := by
    cases built with
    | none =>
      have failed : p.errors ≠ [] := by simpa using given
      simp [failed, h.body]
    | some t =>
      have well : p.errors = [] := by simpa using given
      simp [well, h.body, statements]
  one := by
    refine List.forall_mem_cons.2 ⟨fun well => ?_, h.one⟩
    obtain ⟨t, rfl⟩ := Option.isSome_iff_exists.1 (given.2 well)
    exact ⟨t, statements⟩
  reports := .cons (given.symm.trans told) h.reports

theorem roundsTogether (segments : List Segment) (line line' n : Nat) (enough : segments.length ≤ n)
    (errors : List SyntaxError) :
    (∃ o, segments.mapM (alone line) = .error o ∧ (rounds n).run (start segments line' errors) = .error o) ∨
      ∃ ps body reports, segments.mapM (alone line) = .ok ps ∧ Agrees ps body reports ∧
        (rounds n).run (start segments line' errors) =
          .ok (body, start [] line' (errors ++ reports.flatten)) := by
  induction segments generalizing n errors with
  | nil =>
    refine .inr ⟨[], [], [], rfl, ⟨rfl, by simp, .nil⟩, ?_⟩
    rw [List.flatten_nil, List.append_nil]
    exact roundsDone rfl n errors
  | cons s segments ih =>
    cases n with
    | zero => cases enough
    | succ n =>
    have fewer : segments.length ≤ n := Nat.le_of_succ_le_succ enough
    rw [List.mapM_cons, startCons]
    cases s.outcome with
    | inl stopped =>
      obtain ⟨o, stops⟩ := stopped
      rw [stops.alone]
      exact .inl ⟨o, rfl, stops.round _ _ _⟩
    | inr read =>
      obtain ⟨built, yields⟩ := read
      obtain ⟨p, alone, statements, given⟩ := yields.alone line
      obtain ⟨es, told, stop, round⟩ := yields.round (followed segments line') n errors
      rw [alone]
      cases ih n fewer (errors ++ es) with
      | inl stopped =>
        obtain ⟨o, rest, run⟩ := stopped
        rw [rest]
        exact .inl ⟨o, rfl, stop o run⟩
      | inr read =>
        obtain ⟨ps, body, reports, rest, agrees, run⟩ := read
        rw [rest]
        refine .inr ⟨p :: ps, _, es :: reports, rfl, agrees.cons statements given told, ?_⟩
        rw [List.flatten_cons, ← List.append_assoc]
        exact round body _ run

theorem readsShort {s : Segment} {o : Halt} {line : Nat} (stopped : s.alone line = .error o) :
    ¬ Short s.tokens := by
  intro short
  unfold alone together parseTokens at stopped
  rw [Cursor.ofTokensConcat] at stopped
  cases Parser.programRuns ⟨[s].flatMap Segment.sealed, ⟨.eof, "", line⟩, []⟩ rfl with
  | inl long =>
    obtain ⟨_, _, t, member, int, long⟩ := long
    have inside : t ∈ s.tokens ∨ t = s.semicolon.1 := by simpa [Segment.sealed] using member
    cases inside with
    | inl inside => exact absurd long (Nat.not_lt.2 (short t inside int))
    | inr last =>
      rw [last, s.semicolon.2] at int
      cases int
  | inr read =>
    obtain ⟨tree, c, run, _⟩ := read
    rw [run] at stopped
    cases stopped

end Segment

theorem mapMStops {α β : Type} {f : α → Except Halt β} {l : List α} {o : Halt}
    (h : l.mapM f = .error o) : ∃ a ∈ l, f a = .error o := by
  induction l with
  | nil => cases h
  | cons a l ih =>
    rw [List.mapM_cons] at h
    cases first : f a with
    | error o' =>
      rw [first] at h
      cases h
      exact ⟨a, List.mem_cons_self, first⟩
    | ok b =>
      cases rest : l.mapM f with
      | error o' =>
        rw [first, rest] at h
        cases h
        obtain ⟨a', member, failed⟩ := ih rest
        exact ⟨a', List.mem_cons_of_mem _ member, failed⟩
      | ok bs =>
        rw [first, rest] at h
        cases h

theorem togetherAgrees (segments : List Segment) (line line' : Nat) :
    (∃ o, segments.mapM (Segment.alone line) = .error o ∧ together segments line' = .error o) ∨
      ∃ ps body first reports, segments.mapM (Segment.alone line) = .ok ps ∧ Segment.Agrees ps body reports ∧
        together segments line' = .ok ⟨.program body first, reports.flatten⟩ := by
  have enough : segments.length ≤ (segments.flatMap Segment.sealed).length := by
    induction segments with
    | nil => exact Nat.le_refl _
    | cons s segments ih =>
      simp only [List.flatMap_cons, List.length_append, List.length_cons, Segment.sealed]
      omega
  cases Segment.roundsTogether segments line line' _ enough [] with
  | inl stopped =>
    obtain ⟨o, alone, run⟩ := stopped
    exact .inl ⟨o, alone, Segment.togetherStops run⟩
  | inr read =>
    obtain ⟨ps, body, reports, alone, agrees, run⟩ := read
    exact .inr ⟨ps, body, _, reports, alone, agrees, Segment.togetherReads run⟩

/-- A list of statements is read just if each of them is by itself, as they are unless one holds an integer that
is too long. Then the program has the statements of those that are read by themselves without an error, one
each and in their order; the others are left out, and at least one error is reported for each of them and none
for the rest. -/
theorem malformedLeftOut (segments : List Segment) (line line' : Nat) :
    ((∀ s ∈ segments, Short s.tokens) → ∃ ps, segments.mapM (Segment.alone line) = .ok ps) ∧
      (∀ o, segments.mapM (Segment.alone line) = .error o → together segments line' = .error o) ∧
      ∀ ps, segments.mapM (Segment.alone line) = .ok ps → ∃ first reports,
        together segments line' = .ok
          ⟨.program ((ps.filter (·.errors.isEmpty)).flatMap (·.tree.statements)) first, reports.flatten⟩ ∧
        (∀ p ∈ ps, p.errors = [] → ∃ t, p.tree.statements = [t]) ∧
        List.Forall₂ (fun p es => p.errors = [] ↔ es = []) ps reports := by
  refine ⟨fun short => ?_, ?_⟩
  · cases alone : segments.mapM (Segment.alone line) with
    | ok ps => exact ⟨ps, rfl⟩
    | error o =>
      obtain ⟨s, member, stopped⟩ := mapMStops alone
      exact absurd (short s member) (Segment.readsShort stopped)
  cases togetherAgrees segments line line' with
  | inl stopped =>
    obtain ⟨o, alone, whole⟩ := stopped
    rw [alone]
    refine ⟨fun o' same => ?_, fun ps same => (by cases same)⟩
    cases same
    exact whole
  | inr read =>
    obtain ⟨ps, body, first, reports, alone, agrees, whole⟩ := read
    rw [alone]
    refine ⟨fun o same => (by cases same), fun ps' same => ?_⟩
    cases same
    rw [agrees.body] at whole
    exact ⟨first, reports, whole, agrees.one, agrees.reports⟩

instance : DecidablePred Unbroken := fun r => inferInstanceAs (Decidable (∀ t ∈ r, t.kind.bounds = false))

def Segment.defining (name : String) (value : List Token) (plain : Unbroken value) : Segment where
  tokens := ⟨.keyword .kLet, "let", 1⟩ :: ⟨.ident, name, 1⟩ :: ⟨.sign .assign, "=", 1⟩ :: value
  semicolon := ⟨⟨.sign .semicolon, ";", 1⟩, rfl⟩
  unbroken := List.forall_mem_cons.2 ⟨rfl, List.forall_mem_cons.2 ⟨rfl, List.forall_mem_cons.2 ⟨rfl, plain⟩⟩⟩
  starts := .define rfl

def halves : List Segment :=
  [.defining "x" [⟨.int, "1", 1⟩] (by decide),
    .defining "y" [⟨.sign .lparen, "(", 1⟩, ⟨.int, "2", 1⟩, ⟨.sign .plus, "+", 1⟩] (by decide),
    .defining "z" [⟨.ident, "x", 1⟩] (by decide)]

theorem malformedLeftOutHalves : ∃ ps first reports,
    halves.mapM (Segment.alone 1) = .ok ps ∧ ps.map (·.errors.isEmpty) = [true, false, true] ∧
      together halves 1 = .ok
        ⟨.program ((ps.filter (·.errors.isEmpty)).flatMap (·.tree.statements)) first, reports.flatten⟩ ∧
      List.Forall₂ (fun p es => p.errors = [] ↔ es = []) ps reports := by
  have read : (halves.mapM (Segment.alone 1)).toOption.map (·.map (·.errors.isEmpty)) =
      some [true, false, true] := by decide +kernel
  cases alone : halves.mapM (Segment.alone 1) with
  | error o =>
    rw [alone] at read
    cases read
  | ok ps =>
    rw [alone] at read
    obtain ⟨first, reports, whole, _, each⟩ := (malformedLeftOut halves 1 1).2.2 ps alone
    exact ⟨ps, first, reports, rfl, Option.some.inj read, whole, each⟩

def Segment.number (name digits : String) : Segment :=
  defining name [⟨.int, digits, 1⟩] (List.forall_mem_singleton.2 rfl)

theorem Parser.longExpression {text : String} (long : Oversize.limit < text.toList.length) {c : Cursor}
    {line : Nat} (here : c.curr = ⟨.int, text, line⟩) :
    (expression .standard .lowest).run c = .error (.oversize ⟨text.toList.length⟩) := by
  have stopped : (integer ⟨.int, text, line⟩).run c = .error (.oversize ⟨text.toList.length⟩) := by
    unfold integer
    rw [if_pos long]
    rfl
  unfold expression
  rw [runRemaining, expressionWithin, oneExpression, runCurr, here]
  show (integer ⟨.int, text, line⟩ >>= _).run c = _
  rw [StateT.run_bind, stopped]
  rfl

theorem Parser.definitionStops {expr : Reader} {c : Cursor} {op : Op} {o : Halt}
    (named : c.peek.kind = .ident) (operator : c.advance.peek.kind.assignOp? = some op)
    (stopped : (expr .lowest).run c.advance.advance.advance = .error o) :
    (definition expr).run c = .error o := by
  have value : (lastExpression expr).run c.advance.advance.advance = .error o := by
    rw [lastExpression, StateT.run_bind, stopped]
    rfl
  rw [definition, runCurr]
  dsimp only
  rw [runExpect named, if_pos rfl, binding, runCurr, runPeek, operator]
  dsimp only
  rw [runAdvance, runAdvance, StateT.run_bind, value]
  rfl

theorem Segment.numberStops (name : String) {text : String} (long : Oversize.limit < text.toList.length) :
    (number name text).Stops (.oversize ⟨text.toList.length⟩) := by
  intro x errors
  rw [reader, Parser.statement, runCurr]
  exact Parser.definitionStops rfl rfl (Parser.longExpression long rfl)

/-- One integer that is too long takes with it the statements around it, which are read without an error by
themselves. -/
theorem longIntegerTakesAll :
    (∀ s ∈ [Segment.number "x" "1", .number "z" "2"], ∃ p, s.alone 1 = .ok p ∧ p.errors = []) ∧
      together [.number "x" "1", .number "y" (String.ofList (List.replicate 4301 '1')), .number "z" "2"] 1 =
        .error (.oversize ⟨4301⟩) := by
  have fine : ∀ s ∈ [Segment.number "x" "1", .number "z" "2"], ∃ p, s.alone 1 = .ok p ∧ p.errors = [] := by
    have read : ∀ s ∈ [Segment.number "x" "1", .number "z" "2"],
        (s.alone 1).toOption.map Parsed.errors = some [] := by decide +kernel
    intro s member
    obtain ⟨p, alone, clean⟩ := Option.map_eq_some_iff.1 (read s member)
    cases run : s.alone 1 with
    | error o =>
      rw [run] at alone
      cases alone
    | ok p' =>
      rw [run] at alone
      cases alone
      exact ⟨p, rfl, clean⟩
  refine ⟨fine, ?_⟩
  have digits : (String.ofList (List.replicate 4301 '1')).toList.length = 4301 := by
    rw [String.toList_ofList, List.length_replicate]
  have stops := Segment.numberStops "y" (by rw [digits]; decide)
  rw [digits] at stops
  obtain ⟨p, first, _⟩ := fine _ List.mem_cons_self
  have alone : List.mapM (Segment.alone 1)
      [.number "x" "1", .number "y" (String.ofList (List.replicate 4301 '1')), .number "z" "2"] =
        .error (.oversize ⟨4301⟩) := by
    rw [List.mapM_cons, first, List.mapM_cons, stops.alone]
    rfl
  cases togetherAgrees _ 1 1 with
  | inl stopped =>
    obtain ⟨o, same, whole⟩ := stopped
    cases alone.symm.trans same
    exact whole
  | inr read =>
    obtain ⟨_, _, _, _, same, _⟩ := read
    cases alone.symm.trans same

end Baby
