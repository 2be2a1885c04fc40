import Baby.Proofs.Lexemes
import Baby.Proofs.Termination

/-! Reading past errors. A discipline is a condition on cursors that enter a construct and one on cursors that
leave it, both kept by the single steps of the reader. Every reader keeps every discipline, whatever tokens it
meets; what it builds is well formed, and it builds nothing only after it has reported an error. -/
namespace Baby

/-! Well-formed trees -/

inductive Role where
  | expression | statement | block | program
  deriving DecidableEq, Repr

/- Nothing is missing but the alternative of a conditional; names, numbers, strings, operators and parameters
are such as the source can hold, and every part stands where one of its role belongs. -/
inductive Tree.Formed : Role → Tree → Prop where
  | ident {name line} (named : isName name = true) : Formed .expression (.ident name line)
  | number {value line} (low : 0 ≤ value) (high : value ≤ 9223372036854775807) :
      Formed .expression (.number value line)
  | string {text line} (plain : '"' ∉ text.toList) : Formed .expression (.string text line)
  | boolean {value line} : Formed .expression (.boolean value line)
  | null {line} : Formed .expression (.null line)
  | array {es line} (elements : ∀ e ∈ es, Formed .expression e) : Formed .expression (.array es line)
  | hash {ps line} (keys : ∀ p ∈ ps, Formed .expression p.1) (values : ∀ p ∈ ps, Formed .expression p.2) :
      Formed .expression (.hash ps line)
  | function {params body line} (named : ∀ name ∈ params, isName name = true) (distinct : params.Nodup)
      (block : Formed .block body) : Formed .expression (.function params body line)
  | unary {op e line} (sign : Sign) (operator : sign.unaryOp? = some op) (operand : Formed .expression e) :
      Formed .expression (.unary op e line)
  | binary {op l r line} (sign : Sign) (operator : sign.binaryOp? = some op) (left : Formed .expression l)
      (right : Formed .expression r) : Formed .expression (.binary op l r line)
  | cond {test yes line} (condition : Formed .expression test) (body : Formed .block yes) :
      Formed .expression (.cond test yes .missing line)
  | condElse {test yes no line} (condition : Formed .expression test) (body : Formed .block yes)
      (alternative : Formed .block no) : Formed .expression (.cond test yes no line)
  | loop {test body line} (condition : Formed .expression test) (block : Formed .block body) :
      Formed .expression (.loop test body line)
  | call {f args line} (callee : Formed .expression f) (arguments : ∀ e ∈ args, Formed .expression e) :
      Formed .expression (.call f args line)
  | index {e place line} (target : Formed .expression e) (inner : Formed .expression place) :
      Formed .expression (.index e place line)
  | dot {e key line} (target : Formed .expression e) (inner : Formed .expression key) :
      Formed .expression (.dot e key line)
  | define {name op e line} (named : isName name = true) (sign : Sign) (operator : sign.assignOp? = some op)
      (value : Formed .expression e) : Formed .statement (.define name op e line)
  | assign {name op e line} (named : isName name = true) (sign : Sign) (operator : sign.assignOp? = some op)
      (value : Formed .expression e) : Formed .statement (.assign name op e line)
  | ret {e line} (value : Formed .expression e) : Formed .statement (.ret e line)
  | bare {e line} (value : Formed .expression e) : Formed .statement (.statement e line)
  | block {body line} (statements : ∀ t ∈ body, Formed .statement t) : Formed .block (.block body line)
  | program {body line} (statements : ∀ t ∈ body, Formed .statement t) : Formed .program (.program body line)

structure Token.Proper (t : Token) : Prop where
  named : t.kind = .ident → isName t.text = true
  quoted : t.kind = .string → '"' ∉ t.text.toList

def Cursor.lack (c : Cursor) (kind : Kind) : Cursor := c.report ⟨.expected kind c.peek, c.peek.line⟩

namespace Parser
open Cursor (Plain Moves)

/-! Runs, taken apart -/

section
variable {α β : Type} {c c' : Cursor} {b : β}

theorem bindRan {p : Parser α} {f : α → Parser β} (run : (p >>= f).run c = .ok (b, c')) :
    ∃ a c₁, p.run c = .ok (a, c₁) ∧ (f a).run c₁ = .ok (b, c') := by
  rw [StateT.run_bind] at run
  cases first : p.run c with
  | error o =>
    rw [first] at run
    cases run
  | ok out =>
    rw [first] at run
    exact ⟨out.1, out.2, rfl, run⟩

theorem peekRan {kind : Kind} {p q : Parser β}
    (run : (peekIs kind >>= fun seen => if seen = true then p else q).run c = .ok (b, c')) :
    (c.peek.kind = kind ∧ p.run c = .ok (b, c')) ∨ (c.peek.kind ≠ kind ∧ q.run c = .ok (b, c')) := by
  rw [runPeekIs] at run
  by_cases same : c.peek.kind = kind
  · rw [if_pos (by simpa using same)] at run
    exact .inl ⟨same, run⟩
  · rw [if_neg (by simpa using same)] at run
    exact .inr ⟨same, run⟩

theorem runLack {kind : Kind} {f : Bool → Parser β} (other : c.peek.kind ≠ kind) :
    (expect kind >>= f).run c = (f false).run (c.lack kind) := by
  have missed : (expect kind).run c = .ok (false, c.lack kind) := by
    simp [expect, peekIs, reportPeekFound, Parser.peek, report, other, Cursor.lack]
    rfl
  exact runBind missed

theorem runReportPeek {kind : Kind} {f : Unit → Parser β} :
    (reportPeek kind >>= f).run c = (f ()).run (c.lack kind) := by
  rw [reportPeekFound]
  rfl

theorem expectRan {kind : Kind} {p q : Parser β}
    (run : (expect kind >>= fun seen => if seen = true then p else q).run c = .ok (b, c')) :
    (c.peek.kind = kind ∧ p.run c.advance = .ok (b, c')) ∨
      (c.peek.kind ≠ kind ∧ q.run (c.lack kind) = .ok (b, c')) := by
  by_cases same : c.peek.kind = kind
  · rw [runExpect same] at run
    exact .inl ⟨same, run⟩
  · rw [runLack same] at run
    exact .inr ⟨same, run⟩

end

/-! Disciplines -/

structure Discipline where
  entered : Cursor → Prop
  left : Cursor → Prop
  plain {c} (h : entered c) : c.Plain
  proper {c} (h : entered c) : c.curr.Proper
  leave {c} (h : entered c) : left c
  advance {c} (h : left c) : entered c.advance
  synchronize {c} (h : left c) : left c.synchronize
  lack {c} (kind : Kind) (h : left c) : left (c.lack kind)
  complain {c} (complaint : Complaint) (h : entered c) : entered (c.report ⟨complaint, c.curr.line⟩)

structure Discipline.Leaves (D : Discipline) (c : Cursor) (failed : Prop) (c' : Cursor) : Prop where
  moves : c.Moves c'
  left : D.left c'
  told : failed → c.errors.length < c'.errors.length

namespace Discipline.Leaves
variable {D : Discipline} {c c₁ c₂ : Cursor} {failed failed' : Prop}

theorem weaken (h : D.Leaves c failed c₁) (imp : failed' → failed) : D.Leaves c failed' c₁ :=
  ⟨h.moves, h.left, fun bad => h.told (imp bad)⟩

theorem fine (moves : c.Moves c₁) (left : D.left c₁) (well : ¬ failed) : D.Leaves c failed c₁ :=
  ⟨moves, left, fun bad => absurd bad well⟩

theorem lack (moves : c.Moves c₁) (left : D.left c₁) (kind : Kind) : D.Leaves c failed (c₁.lack kind) := by
  refine ⟨moves.trans (.report c₁ _), D.lack kind left, fun _ => ?_⟩
  have length := moves.errors.length_le
  simp only [Cursor.lack, Cursor.report, List.length_append, List.length_singleton]
  omega

theorem before (moves : c.Moves c₁) (h : D.Leaves c₁ failed c₂) : D.Leaves c failed c₂ :=
  ⟨moves.trans h.moves, h.left, fun bad => Nat.lt_of_le_of_lt moves.errors.length_le (h.told bad)⟩

theorem after (h : D.Leaves c failed c₁) (moves : c₁.Moves c₂) (left : D.left c₂) : D.Leaves c failed c₂ :=
  ⟨h.moves.trans moves, left, fun bad => Nat.lt_of_lt_of_le (h.told bad) moves.errors.length_le⟩

end Discipline.Leaves

/- Entered at `c`, the reader leaves in order; what it builds is good, and it builds nothing only after it has
reported an error. -/
def Builds {α : Type} (D : Discipline) (c : Cursor) (p : Parser (Option α)) (good : α → Prop) : Prop :=
  ∀ r c', p.run c = .ok (r, c') → D.Leaves c (r = none) c' ∧ ∀ a, r = some a → good a

def BuildsTrees (D : Discipline) (expr : Reader) : Prop :=
  ∀ level c, D.entered c → Builds D c (expr level) (Tree.Formed .expression)

section
variable {D : Discipline} {expr : Reader} {c : Cursor}

namespace Builds
variable {α β : Type} {p : Parser (Option α)} {good : α → Prop} {good' : β → Prop}

theorem ran {c' : Cursor} {r : Option α} (run : p.run c = .ok (r, c')) (h : Builds D c p good) :
    D.Leaves c (r = .none) c' ∧ ∀ a, r = .some a → good a := h r c' run

theorem some {a : α} (left : D.left c) (here : good a) : Builds D c (pure (Option.some a)) good := by
  intro r c' run
  cases run
  exact ⟨.fine (.refl _) left (by simp), by simpa using here⟩

theorem advance {f : Unit → Parser (Option α)} (h : Builds D c.advance (f ()) good) :
    Builds D c (Parser.advance >>= f) good := by
  intro r c' run
  obtain ⟨leaves, fine⟩ := h r c' run
  exact ⟨leaves.before (.advance c), fine⟩

theorem map (h : Builds D c p good) {f : α → β} (imp : ∀ a, good a → good' (f a)) :
    Builds D c (p >>= fun r => pure (r.map f)) good' := by
  intro r c' run
  obtain ⟨r₁, c₁, first, run⟩ := bindRan run
  cases run
  obtain ⟨leaves, fine⟩ := h _ _ first
  refine ⟨leaves.weaken Option.map_eq_none_iff.1, fun b built => ?_⟩
  obtain ⟨a, same, rfl⟩ := Option.map_eq_some_iff.1 built
  exact imp a (fine a same)

theorem bind (h : Builds D c p good) {f : Option α → Parser (Option β)} (stop : f .none = pure .none)
    (rest : ∀ a c₁, c.Moves c₁ → D.left c₁ → good a → Builds D c₁ (f (.some a)) good') :
    Builds D c (p >>= f) good' := by
  intro r c' run
  obtain ⟨part, c₁, first, run⟩ := bindRan run
  obtain ⟨leaves, fine⟩ := h _ _ first
  cases part with
  | none =>
    rw [stop] at run
    cases run
    exact ⟨leaves.weaken fun _ => rfl, by simp⟩
  | some a =>
    obtain ⟨leaves', fine'⟩ := rest a c₁ leaves.moves leaves.left (fine a rfl) r c' run
    exact ⟨leaves'.before leaves.moves, fine'⟩

theorem peekIs {kind : Kind} {q : Parser (Option α)} (yes : c.peek.kind = kind → Builds D c p good)
    (no : c.peek.kind ≠ kind → Builds D c q good) :
    Builds D c (Parser.peekIs kind >>= fun seen => if seen = true then p else q) good := by
  intro r c' run
  cases peekRan run with
  | inl seen => exact yes seen.1 r c' seen.2
  | inr other => exact no other.1 r c' other.2

theorem expect {kind : Kind} (left : D.left c) (yes : c.peek.kind = kind → Builds D c.advance p good) :
    Builds D c (Parser.expect kind >>= fun seen => if seen = true then p else pure .none) good := by
  intro r c' run
  cases expectRan run with
  | inl seen =>
    obtain ⟨leaves, fine⟩ := yes seen.1 r c' seen.2
    exact ⟨leaves.before (.advance c), fine⟩
  | inr other =>
    obtain ⟨_, run⟩ := other
    cases run
    exact ⟨.lack (.refl c) left kind, by simp⟩

end Builds

theorem Discipline.twice (left : D.left c) : D.entered c.advance.advance :=
  D.advance (D.leave (D.advance left))

/-! Lists -/

theorem itemsBuild (h : BuildsTrees D expr) (n : Nat) {c c' : Cursor} {found : List (Option Tree)}
    (here : D.entered c) (run : (items expr n).run c = .ok (found, c')) :
    D.Leaves c (none ∈ found) c' ∧ ∀ t, some t ∈ found → t.Formed .expression := by
  induction n generalizing c found with
  | zero =>
    cases run
    exact ⟨.fine (.refl _) (D.leave here) (by simp), by simp⟩
  | succ n ih =>
    unfold items at run
    obtain ⟨item, c₁, first, run⟩ := bindRan run
    obtain ⟨leaves, formed⟩ := h .lowest c here _ _ first
    cases peekRan run with
    | inl more =>
      obtain ⟨_, run⟩ := more
      rw [runAdvance, runAdvance] at run
      obtain ⟨others, c₂, rest, run⟩ := bindRan run
      cases run
      have moves := movesTwice (.refl c₁)
      obtain ⟨leaves', formed'⟩ := ih (D.advance (D.leave (D.advance leaves.left))) rest
      refine ⟨⟨(leaves.moves.trans moves).trans leaves'.moves, leaves'.left, fun missing => ?_⟩, ?_⟩
      · cases List.mem_cons.1 missing with
        | inl here => exact (leaves.after (moves.trans leaves'.moves) leaves'.left).told here.symm
        | inr there => exact (leaves'.before (leaves.moves.trans moves)).told there
      · intro t member
        cases List.mem_cons.1 member with
        | inl here => exact formed t here.symm
        | inr there => exact formed' t there
    | inr last =>
      obtain ⟨_, run⟩ := last
      cases run
      refine ⟨leaves.weaken fun missing => (List.mem_singleton.1 missing).symm, fun t member => ?_⟩
      exact formed t (List.mem_singleton.1 member).symm

theorem mapMCases (found : List (Option Tree)) :
    (none ∈ found ∧ found.mapM id = none) ∨ ∃ es, found = es.map some ∧ found.mapM id = some es := by
  induction found with
  | nil => exact .inr ⟨[], rfl, rfl⟩
  | cons item found ih =>
    cases item with
    | none => exact .inl ⟨List.mem_cons_self, by simp⟩
    | some t =>
      cases ih with
      | inl failed => exact .inl ⟨List.mem_cons_of_mem _ failed.1, by simp [failed.2]⟩
      | inr built =>
        obtain ⟨es, rfl, _⟩ := built
        exact .inr ⟨t :: es, rfl, mapMSome (t :: es)⟩

theorem expressionsBuild (h : BuildsTrees D expr) (close : Sign) (here : D.entered c) :
    Builds D c (expressions expr close) fun es => ∀ e ∈ es, e.Formed .expression := by
  have inside := D.advance (D.leave here)
  unfold expressions
  refine .peekIs (fun _ => .advance (.some (D.leave inside) (by simp))) fun _ => .advance ?_
  intro r c' run
  rw [runRemaining] at run
  obtain ⟨found, c₁, read, run⟩ := bindRan run
  obtain ⟨leaves, formed⟩ := itemsBuild h _ inside read
  cases expectRan run with
  | inl closed =>
    obtain ⟨_, run⟩ := closed
    cases run
    have leaves := leaves.after (.advance c₁) (D.leave (D.advance leaves.left))
    cases mapMCases found with
    | inl failed => exact ⟨leaves.weaken fun _ => failed.1, by simp [failed.2]⟩
    | inr built =>
      obtain ⟨es, rfl, same⟩ := built
      rw [same]
      refine ⟨.fine leaves.moves leaves.left (by simp), fun _ built e member => ?_⟩
      cases built
      exact formed e (List.mem_map.2 ⟨e, member, rfl⟩)
  | inr other =>
    obtain ⟨_, run⟩ := other
    cases run
    exact ⟨.lack leaves.moves leaves.left _, by simp⟩

def FormedPairs (ps : List (Tree × Tree)) : Prop :=
  ∀ p ∈ ps, p.1.Formed .expression ∧ p.2.Formed .expression

theorem pairsBuild (h : BuildsTrees D expr) (n : Nat) {c : Cursor} (here : D.left c) (plain : c.Plain)
    (enough : c.ahead.length < n) : Builds D c (pairs expr n) FormedPairs := by
  induction n generalizing c with
  | zero => omega
  | succ n ih =>
    have inside := D.advance here
    unfold pairs
    simp only [ifNot]
    refine .peekIs (fun _ => .advance (.some (D.leave inside) (by simp [FormedPairs]))) fun _ => .advance ?_
    intro r c' run
    obtain ⟨key, c₁, first, run⟩ := bindRan run
    obtain ⟨leaves, keyFormed⟩ := h .lowest _ inside _ _ first
    cases expectRan run with
    | inr other =>
      obtain ⟨_, run⟩ := other
      cases run
      exact ⟨.lack leaves.moves leaves.left _, by simp⟩
    | inl colon =>
      obtain ⟨colon, run⟩ := colon
      rw [runAdvance] at run
      obtain ⟨value, c₂, second, run⟩ := bindRan run
      obtain ⟨leaves', valueFormed⟩ := h .lowest _ (D.twice leaves.left) _ _ second
      have moves : c.advance.Moves c₂ := (movesTwice leaves.moves).trans leaves'.moves
      have before : c.Moves c₁ := (Moves.advance c).trans leaves.moves
      have less : c₂.ahead.length < c.ahead.length :=
        movesShort leaves'.moves (twiceShorter (plain.moves before) colon (by decide) before.length)
      have plain₂ : c₂.Plain := (plain.moves (.advance c)).moves moves
      cases key with
      | none =>
        cases run
        have leaves := leaves.after ((movesTwice (.refl c₁)).trans leaves'.moves) leaves'.left
        exact ⟨leaves.weaken fun _ => rfl, by simp⟩
      | some key =>
      cases value with
      | none =>
        cases run
        exact ⟨(leaves'.before (movesTwice leaves.moves)).weaken fun _ => rfl, by simp⟩
      | some value =>
        have cons (ps : List (Tree × Tree)) (fine : FormedPairs ps) : FormedPairs ((key, value) :: ps) :=
          List.forall_mem_cons.2 ⟨⟨keyFormed key rfl, valueFormed value rfl⟩, fine⟩
        have rest := ih leaves'.left plain₂ (by omega)
        have rest' := ih (D.leave (D.advance leaves'.left)) (plain₂.moves (.advance c₂))
          (movesShort (.advance c₂) (by omega))
        have built : D.Leaves c₂ (r = none) c' ∧ ∀ ps, r = some ps → FormedPairs ps :=
          Builds.ran run (.peekIs (fun _ => rest.map cons) fun _ => .expect leaves'.left fun _ => rest'.map cons)
        exact ⟨built.1.before moves, built.2⟩

theorem namesMore {names : List String} {tok : Token} (fresh : tok.text ∉ names) (proper : tok.Proper)
    (kind : tok.kind = .ident) (named : ∀ name ∈ names, isName name = true) (distinct : names.Nodup) :
    (∀ name ∈ names ++ [tok.text], isName name = true) ∧ (names ++ [tok.text]).Nodup := by
  refine ⟨List.forall_mem_append.2 ⟨named, List.forall_mem_singleton.2 (proper.named kind)⟩, ?_⟩
  rw [List.nodup_append]
  refine ⟨distinct, by simp, fun a member b last same => fresh ?_⟩
  rw [← List.mem_singleton.1 last, ← same]
  exact member

theorem parametersBuild (n : Nat) (names : List String) {c : Cursor} (here : D.left c) (plain : c.Plain)
    (opened : c.curr.kind ≠ .eof) (enough : c.ahead.length ≤ n)
    (named : ∀ name ∈ names, isName name = true) (distinct : names.Nodup) :
    Builds D c (parameters n names) fun params => (∀ name ∈ params, isName name = true) ∧ params.Nodup := by
  induction n generalizing c names with
  | zero =>
    obtain ⟨rest, ahead⟩ := plain.currCons opened
    simp [ahead] at enough
  | succ n ih =>
    unfold parameters
    simp only [ifNot]
    refine .expect here fun kind => ?_
    have inside := D.advance here
    have plain₁ := D.plain inside
    have shorter := lengthPeek plain kind (by decide)
    intro r c' run
    rw [runCurr] at run
    split at run
    · obtain ⟨_, c₁, told, run⟩ := bindRan run
      cases told
      cases run
      have complained := D.complain (.duplicateParameter c.advance.curr.text) inside
      refine ⟨⟨.report _ _, D.leave complained, fun _ => ?_⟩, by simp⟩
      simp [Cursor.report]
    · next fresh =>
      obtain ⟨named, distinct⟩ := namesMore fresh (D.proper inside) kind named distinct
      have left := D.leave (D.advance (D.leave inside))
      refine Builds.ran run (.peekIs (fun comma => .advance ?_) fun _ =>
        .expect (D.leave inside) fun _ => .some left ⟨named, distinct⟩)
      have shorter' := lengthPeek plain₁ comma (by decide)
      exact ih _ left (plain₁.moves (.advance _)) (by simp [comma]) (by omega) named distinct

theorem parameterListBuild {c : Cursor} (here : D.left c) (plain : c.Plain) (opened : c.curr.kind ≠ .eof) :
    Builds D c parameterList fun params => (∀ name ∈ params, isName name = true) ∧ params.Nodup := by
  unfold parameterList
  refine .peekIs (fun _ => .advance (.some (D.leave (D.advance here)) (by simp))) fun _ => ?_
  intro r c' run
  rw [runRemaining] at run
  exact parametersBuild _ [] here plain opened (Nat.le_refl _) (by simp) .nil r c' run

/-! Statements -/

theorem endStatementLeaves {c c' : Cursor} {ended : Bool} (here : D.left c)
    (run : endStatement.run c = .ok (ended, c')) : D.Leaves c (ended = false) c' := by
  unfold endStatement at run
  rw [runPeek] at run
  split at run
  · cases run
    exact .fine (.advance c) (D.leave (D.advance here)) (by simp)
  · split at run
    · cases run
      exact .fine (.refl _) here (by simp)
    · rw [runReportPeek] at run
      cases run
      exact (Discipline.Leaves.lack (.refl c) here _).after (.synchronize _) (D.synchronize (D.lack _ here))

theorem lastExpressionBuild (h : BuildsTrees D expr) (here : D.entered c) :
    Builds D c (lastExpression expr) (Tree.Formed .expression) := by
  intro r c' run
  unfold lastExpression at run
  obtain ⟨value, c₁, read, run⟩ := bindRan run
  obtain ⟨leaves, formed⟩ := h .lowest c here _ _ read
  cases value with
  | none =>
    cases run
    exact ⟨leaves.after (.synchronize c₁) (D.synchronize leaves.left), by simp⟩
  | some e =>
    obtain ⟨ended, c₂, ending, run⟩ := bindRan run
    cases run
    have leaves' := (endStatementLeaves leaves.left ending).before leaves.moves
    cases ended with
    | true => exact ⟨.fine leaves'.moves leaves'.left (by simp), by simpa using formed e rfl⟩
    | false => exact ⟨leaves'.weaken fun _ => rfl, by simp⟩

theorem assignSign {k : Kind} {op : Op} (h : k.assignOp? = some op) : ∃ s : Sign, s.assignOp? = some op := by
  cases k with
  | sign s => exact ⟨s, h⟩
  | _ => cases h

theorem bindingBuild (h : BuildsTrees D expr) {build : String → Op → Tree → Tree} (here : D.entered c)
    (kind : c.curr.kind = .ident)
    (formed : ∀ name op e (s : Sign), isName name = true → s.assignOp? = some op → e.Formed .expression →
      (build name op e).Formed .statement) :
    Builds D c (binding expr build) (Tree.Formed .statement) := by
  intro r c' run
  unfold binding at run
  rw [runCurr, runPeek] at run
  split at run
  · rw [runReportPeek] at run
    cases run
    have lacks : D.Leaves c True (c.lack (.sign .assign)) := .lack (.refl c) (D.leave here) _
    exact ⟨(lacks.weaken fun _ => trivial).after (.synchronize _) (D.synchronize lacks.left), by simp⟩
  · next op operator =>
    obtain ⟨s, operator⟩ := assignSign operator
    have named := (D.proper here).named kind
    have value := lastExpressionBuild h (D.twice (D.leave here))
    exact Builds.ran run (.advance (.advance
      (value.map fun e fine => formed _ op e s named operator fine)))

theorem definitionBuild (h : BuildsTrees D expr) (here : D.entered c) :
    Builds D c (definition expr) (Tree.Formed .statement) := by
  intro r c' run
  unfold definition at run
  rw [runCurr] at run
  cases expectRan run with
  | inl named =>
    obtain ⟨kind, run⟩ := named
    have built := bindingBuild h (D.advance (D.leave here)) kind
      (fun name op e s named operator value => Tree.Formed.define named s operator value) r c' run
    exact ⟨built.1.before (.advance c), built.2⟩
  | inr other =>
    obtain ⟨_, run⟩ := other
    cases run
    have lacks : D.Leaves c True (c.lack .ident) := .lack (.refl c) (D.leave here) _
    exact ⟨(lacks.weaken fun _ => trivial).after (.synchronize _) (D.synchronize lacks.left), by simp⟩

theorem returningBuild (h : BuildsTrees D expr) (here : D.entered c) :
    Builds D c (returning expr) (Tree.Formed .statement) := by
  have inside := D.advance (D.leave here)
  have value := lastExpressionBuild h inside
  intro r c' run
  unfold returning at run
  rw [runCurr] at run
  exact Builds.ran run (.peekIs (fun _ => .advance (.some (D.leave inside) (.ret .null)))
    fun _ => .advance (value.map fun e fine => .ret fine))

theorem bareBuild (h : BuildsTrees D expr) (here : D.entered c) :
    Builds D c (bare expr) (Tree.Formed .statement) := by
  intro r c' run
  unfold bare at run
  rw [runCurr] at run
  obtain ⟨value, c₁, read, run⟩ := bindRan run
  obtain ⟨leaves, formed⟩ := h .lowest c here _ _ read
  have built (t : Tree) (same : value.map (fun e => Tree.statement e c.curr.line) = some t) :
      t.Formed .statement := by
    obtain ⟨e, rfl, rfl⟩ := Option.map_eq_some_iff.1 same
    exact .bare (formed e rfl)
  cases peekRan run with
  | inl semicolon =>
    obtain ⟨_, run⟩ := semicolon
    cases run
    have leaves := leaves.after (.advance c₁) (D.leave (D.advance leaves.left))
    exact ⟨leaves.weaken Option.map_eq_none_iff.1, built⟩
  | inr other =>
    obtain ⟨_, run⟩ := other
    cases run
    exact ⟨leaves.weaken Option.map_eq_none_iff.1, built⟩

theorem statementBuild (h : BuildsTrees D expr) (here : D.entered c) :
    Builds D c (statement expr) (Tree.Formed .statement) := by
  intro r c' run
  unfold statement at run
  rw [runCurr] at run
  split at run
  · exact definitionBuild h here r c' run
  · exact returningBuild h here r c' run
  · next kind =>
    rw [runPeek] at run
    split at run
    · exact bindingBuild h here kind
        (fun name op e s named operator value => .assign named s operator value) r c' run
    · exact bareBuild h here r c' run
  · exact bareBuild h here r c' run

theorem statementsBuild (h : BuildsTrees D expr) {ends : Kind → Bool} (n : Nat) {c c' : Cursor}
    {body : List Tree} (here : D.entered c) (run : (statements expr ends n).run c = .ok (body, c')) :
    c.Moves c' ∧ D.entered c' ∧ ∀ t ∈ body, t.Formed .statement := by
  induction n generalizing c body with
  | zero =>
    cases run
    exact ⟨.refl _, here, by simp⟩
  | succ n ih =>
    unfold statements at run
    rw [runCurr] at run
    split at run
    · cases run
      exact ⟨.refl _, here, by simp⟩
    · obtain ⟨built, c₁, first, run⟩ := bindRan run
      rw [runAdvance] at run
      obtain ⟨others, c₂, rest, run⟩ := bindRan run
      cases run
      obtain ⟨leaves, formed⟩ := statementBuild h here _ _ first
      obtain ⟨moves, entered, formed'⟩ := ih (D.advance leaves.left) rest
      refine ⟨(leaves.moves.trans (.advance c₁)).trans moves, entered, List.forall_mem_append.2 ⟨?_, formed'⟩⟩
      intro t member
      exact formed t (Option.mem_toList.1 member)

theorem blockBuild (h : BuildsTrees D expr) {c c' : Cursor} {t : Tree} (here : D.left c)
    (run : (block expr).run c = .ok (t, c')) : c.Moves c' ∧ D.left c' ∧ t.Formed .block := by
  unfold block at run
  rw [runCurr, runAdvance, runRemaining] at run
  obtain ⟨body, c₁, read, run⟩ := bindRan run
  obtain ⟨moves, entered, formed⟩ := statementsBuild h _ (D.advance here) read
  have moves := (Moves.advance c).trans moves
  rw [runCurr] at run
  dsimp only at run
  split at run
  · cases run
    exact ⟨moves.trans (.report c₁ _), D.leave (D.complain _ entered), .block formed⟩
  · cases run
    exact ⟨moves, D.leave entered, .block formed⟩

/-! Expressions -/

theorem conditionBuild (h : BuildsTrees D expr) (here : D.entered c) :
    Builds D c (condition expr) (Tree.Formed .expression) := by
  unfold condition
  simp only [ifNot]
  refine .expect (D.leave here) fun _ => .advance ?_
  refine .bind (h .lowest _ (D.twice (D.leave here))) rfl fun test c₁ _ left formed => ?_
  have closed := D.leave (D.advance left)
  exact .expect left fun _ => .expect closed fun _ => .some (D.leave (D.advance closed)) formed

theorem conditionalBuild (h : BuildsTrees D expr) (line : Nat) (here : D.entered c) :
    Builds D c (conditional expr line) (Tree.Formed .expression) := by
  refine .bind (conditionBuild h here) rfl fun test c₁ _ left tested => ?_
  intro r c' run
  obtain ⟨yes, c₂, first, run⟩ := bindRan run
  obtain ⟨moves, left, body⟩ := blockBuild h left first
  have behind := D.leave (D.advance left)
  cases peekRan run with
  | inl otherwise =>
    obtain ⟨_, run⟩ := otherwise
    rw [runAdvance] at run
    cases expectRan run with
    | inl brace =>
      obtain ⟨_, run⟩ := brace
      obtain ⟨no, c₃, second, run⟩ := bindRan run
      cases run
      obtain ⟨moves', left, alternative⟩ := blockBuild h (D.leave (D.advance behind)) second
      refine ⟨.fine ((movesTwice moves).trans moves') left (by simp), fun _ built => ?_⟩
      cases built
      exact .condElse tested body alternative
    | inr other =>
      obtain ⟨_, run⟩ := other
      cases run
      exact ⟨.lack (moves.trans (.advance c₂)) behind _, by simp⟩
  | inr alone =>
    obtain ⟨_, run⟩ := alone
    cases run
    refine ⟨.fine moves left (by simp), fun _ built => ?_⟩
    cases built
    exact .cond tested body

theorem repetitionBuild (h : BuildsTrees D expr) (line : Nat) (here : D.entered c) :
    Builds D c (repetition expr line) (Tree.Formed .expression) := by
  refine .bind (conditionBuild h here) rfl fun test c₁ _ left tested => ?_
  intro r c' run
  obtain ⟨body, c₂, read, run⟩ := bindRan run
  cases run
  obtain ⟨moves, left, formed⟩ := blockBuild h left read
  refine ⟨.fine moves left (by simp), fun _ built => ?_⟩
  cases built
  exact .loop tested formed

theorem functionBuild (h : BuildsTrees D expr) (line : Nat) (here : D.entered c) :
    Builds D c (function expr line) (Tree.Formed .expression) := by
  unfold function
  simp only [ifNot]
  refine .expect (D.leave here) fun started => ?_
  have inside := D.advance (D.leave here)
  have params := parameterListBuild (D.leave inside) (D.plain inside) (by simp [started])
  refine .bind params rfl fun names c₁ _ left fine => .expect left fun _ => ?_
  intro r c' run
  obtain ⟨body, c₂, read, run⟩ := bindRan run
  cases run
  obtain ⟨moves, left, formed⟩ := blockBuild h (D.leave (D.advance left)) read
  refine ⟨.fine moves left (by simp), fun _ built => ?_⟩
  cases built
  exact .function fine.1 fine.2 formed

theorem integerBuild (here : D.entered c) : Builds D c (integer c.curr) (Tree.Formed .expression) := by
  intro r c' run
  unfold integer at run
  dsimp only at run
  split at run
  · cases run
  split at run
  · cases run
    refine ⟨⟨.report _ _, D.leave (D.complain _ here), fun _ => ?_⟩, by simp⟩
    simp [Cursor.report]
  · next fits =>
    cases run
    refine ⟨.fine (.refl _) (D.leave here) (by simp), fun _ built => ?_⟩
    cases built
    have high : Text.Digit.number c.curr.text.toList ≤ 9223372036854775807 := Nat.not_lt.1 fits
    exact .number (Int.natCast_nonneg _) (Int.ofNat_le.2 high)

theorem openingBuild (h : BuildsTrees D expr) (here : D.entered c) {form : Opening}
    (opens : Forms.standardOpening? c.curr.kind = some form) :
    Builds D c (opening expr c.curr form) (Tree.Formed .expression) := by
  have kind := openingKind opens
  have left := D.leave here
  have inside := D.advance left
  have proper := D.proper here
  cases form with
  | identifier => exact .some left (.ident (proper.named kind))
  | integer => exact integerBuild here
  | string => exact .some left (.string (proper.quoted kind))
  | boolean value => exact .some left .boolean
  | null => exact .some left .null
  | group =>
    refine .advance ?_
    intro r c' run
    obtain ⟨inner, c₁, read, run⟩ := bindRan run
    obtain ⟨leaves, formed⟩ := h .lowest _ inside _ _ read
    simp only [pureIf] at run
    cases expectRan run with
    | inl closed =>
      obtain ⟨_, run⟩ := closed
      cases run
      exact ⟨leaves.after (.advance c₁) (D.leave (D.advance leaves.left)), formed⟩
    | inr other =>
      obtain ⟨_, run⟩ := other
      cases run
      exact ⟨.lack leaves.moves leaves.left _, by simp⟩
  | array => exact (expressionsBuild h _ here).map fun es formed => .array formed
  | hash =>
    intro r c' run
    unfold opening at run
    rw [runRemaining] at run
    have pairs := pairsBuild h _ left (D.plain here) (Nat.lt_succ_self _)
    exact Builds.ran run (pairs.map fun ps formed =>
      .hash (fun p member => (formed p member).1) fun p member => (formed p member).2)
  | unary =>
    obtain ⟨sign, op, kind, operator⟩ := kind
    rw [openingUnary (by rw [kind]; exact operator)]
    exact .advance ((h .unary _ inside).map fun e formed => .unary sign operator formed)
  | conditional => exact conditionalBuild h _ here
  | loop => exact repetitionBuild h _ here
  | function => exact functionBuild h _ here

theorem continuationBuild (h : BuildsTrees D expr) {e : Tree} (operand : e.Formed .expression)
    (here : D.entered c) {form : Continuation}
    (continues : Forms.standardContinuation? c.curr.kind = some form) :
    Builds D c (continuation expr c.curr e form) (Tree.Formed .expression) := by
  have kind := continuationKind continues
  have inside := D.advance (D.leave here)
  cases form with
  | binary =>
    obtain ⟨sign, op, kind, operator⟩ := kind
    rw [continuationBinary (by rw [kind]; exact operator)]
    exact .advance ((h _ _ inside).map fun right formed => .binary sign operator operand formed)
  | call => exact (expressionsBuild h _ here).map fun args formed => .call operand formed
  | index =>
    unfold continuation
    simp only [pureIf]
    refine .advance (.bind (h .lowest _ inside) rfl fun place c₁ _ left formed => ?_)
    exact .expect left fun _ => .some (D.leave (D.advance left)) (.index operand formed)
  | dot => exact .advance ((h .dot _ inside).map fun key formed => .dot operand formed)

theorem extendBuild (h : BuildsTrees D expr) (level : Precedence) (n : Nat) {e : Tree} {c : Cursor}
    (operand : e.Formed .expression) (here : D.left c) :
    Builds D c (extend .standard expr level n e) (Tree.Formed .expression) := by
  induction n generalizing e c with
  | zero => exact .some here operand
  | succ n ih =>
    intro r c' run
    unfold extend at run
    rw [runPeek] at run
    split at run
    · exact Builds.ran run (.some here operand)
    · split at run
      · exact Builds.ran run (.some here operand)
      · next form continues =>
        have grown := continuationBuild h operand (D.advance here) continues
        exact Builds.ran run (.advance (.bind grown rfl fun e c₁ _ left formed => ih formed left))

theorem oneExpressionBuild (h : BuildsTrees D expr) : BuildsTrees D (oneExpression .standard expr) := by
  intro level c here r c' run
  unfold oneExpression at run
  rw [runCurr] at run
  split at run
  · cases run
    refine ⟨⟨.report _ _, D.leave (D.complain _ here), fun _ => ?_⟩, by simp⟩
    simp [Cursor.report]
  · next form opens =>
    refine Builds.ran run (.bind (openingBuild h here opens) rfl fun e c₁ _ left formed => ?_)
    exact extendBuild h level _ formed left

end

/- Unrolled often enough, the reader of expressions never comes to what stands at the end of the unrolling:
there a reader may stand that never gives anything. -/
theorem expressionBuild (D : Discipline) : BuildsTrees D (expression .standard) := by
  have unrolled (n : Nat) : BuildsTrees D ((oneExpression .standard)^[n] fun _ => throw (.oversize ⟨0⟩)) := by
    induction n with
    | zero =>
      intro level c here r c' run
      cases run
    | succ n ih =>
      rw [Function.iterate_succ_apply']
      exact oneExpressionBuild ih
  intro level c here r c' run
  have same := readerTerminates.descent c (D.plain here) trivial _ (Nat.lt_succ_self _)
    (fun _ => throw (.oversize ⟨0⟩)) level
  exact unrolled _ level c here r c' (same.trans run)

theorem programBuild {D : Discipline} {c c' : Cursor} {t : Tree} (here : D.entered c)
    (run : program.run c = .ok (t, c')) : D.entered c' ∧ t.Formed .program := by
  unfold program at run
  rw [runCurr, runRemaining] at run
  obtain ⟨body, c₁, read, run⟩ := bindRan run
  cases run
  obtain ⟨_, entered, formed⟩ := statementsBuild (expressionBuild D) _ here read
  exact ⟨entered, .program formed⟩

end Parser

theorem parsedRan {ts : List Token} {parsed : Parsed} (read : parseTokens ts = .ok parsed) :
    ∃ c, Parser.program.run (Cursor.ofTokens ts) = .ok (parsed.tree, c) ∧ parsed.errors = c.errors := by
  unfold parseTokens at read
  cases run : Parser.program.run (Cursor.ofTokens ts) with
  | error o =>
    rw [run] at read
    cases read
  | ok out =>
    rw [run] at read
    cases read
    exact ⟨out.2, rfl, rfl⟩

end Baby
