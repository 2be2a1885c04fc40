import Mathlib.Data.List.TakeWhile
import Mathlib.Logic.Function.Iterate
import Baby.Proofs.Joining

/-! The layout of a source text. Its tokens stand in it in their order, between them there is nothing but
blanks, line ends and comments, and every call of the scanner leaves it with its right place and line. -/
namespace Baby

def Token.lexeme (t : Token) : List Char :=
  if t.kind = .string then '"' :: (t.text.toList ++ ['"']) else t.text.toList

/- What is skipped before `rest`. A comment goes up to the end of its line, or of the text. -/
inductive Trivia (rest : List Char) : List Char → Prop where
  | none : Trivia rest []
  | blank {c cs} (gap : c = ' ' ∨ c = '\t' ∨ c = '\r') (more : Trivia rest cs) : Trivia rest (c :: cs)
  | lineEnd {cs} (more : Trivia rest cs) : Trivia rest ('\n' :: cs)
  | comment {body cs} (inside : '\n' ∉ body) (ended : ∀ c ∈ (cs ++ rest).head?, c = '\n')
      (more : Trivia rest cs) : Trivia rest ('#' :: (body ++ cs))

/-! Lexemes -/

namespace Rule

theorem gapBlank {c : Char} (h : isGap c = true) : c = ' ' ∨ c = '\t' ∨ c = '\r' := by
  simpa [isGap, or_assoc] using h

theorem blanksTrivia {rest gap cs : List Char} (blank : ∀ c ∈ gap, isGap c = true)
    (more : Trivia rest cs) : Trivia rest (gap ++ cs) := by
  induction gap with
  | nil => exact more
  | cons c gap ih =>
    rw [List.forall_mem_cons] at blank
    exact .blank (gapBlank blank.1) (ih blank.2)

theorem lineRest {cs l after : List Char} (split : cs = l ++ after)
    (line : l = cs.takeWhile (· ≠ '\n')) : '\n' ∉ l ∧ ∀ c ∈ after.head?, c = '\n' := by
  constructor
  · intro inside
    rw [line] at inside
    simpa using List.mem_takeWhile_imp inside
  · intro c first
    have same : after = cs.dropWhile (· ≠ '\n') := by
      have whole := List.takeWhile_append_dropWhile (p := (· ≠ '\n')) (l := cs)
      rw [← line] at whole
      exact List.append_cancel_left (split.symm.trans whole.symm)
    have stopped := List.head?_dropWhile_not (· ≠ '\n') cs
    rw [← same, first] at stopped
    simpa using stopped

theorem stringMatch {cs l : List Char} (matched : string.match? cs = some l) :
    ∃ body, l = '"' :: (body ++ ['"']) ∧ '"' ∉ body := by
  cases cs with
  | nil => cases matched
  | cons c cs =>
    by_cases quote : c = '"'
    · subst quote
      simp only [match?] at matched
      split at matched
      · cases matched
        refine ⟨_, rfl, fun inside => ?_⟩
        simpa using List.mem_takeWhile_imp inside
      · cases matched
    · simp [match?, quote] at matched

theorem skippedTrivia {r : Rule} {cs l gap rest : List Char} (matched : r.match? cs = some l)
    (skipped : r.isTrivia = true) (split : cs = l ++ (gap ++ rest)) (more : Trivia rest gap) :
    Trivia rest (l ++ gap) := by
  cases r with
  | comment =>
    obtain ⟨line, rfl, rfl⟩ := commentMatch matched
    have after : line = line.takeWhile (· ≠ '\n') ++ (gap ++ rest) := by simpa using split
    obtain ⟨inside, ended⟩ := lineRest after rfl
    exact .comment inside ended more
  | newline =>
    cases newlineMatch matched with
    | inl feed =>
      subst feed
      exact .lineEnd more
    | inr both =>
      subst both
      exact .blank (.inr (.inr rfl)) (.lineEnd more)
  | blanks =>
    simp only [match?] at matched
    split at matched
    · cases matched
    · cases matched
      exact blanksTrivia (fun c => List.mem_takeWhile_imp) more
  | int | string | unterminated | word | sign | other => cases skipped

theorem textPlain {r : Rule} (other : r ≠ .string) (l : List Char) : r.text l = String.ofList l := by
  cases r with
  | string => exact absurd rfl other
  | _ => rfl

theorem kindString {r : Rule} (other : r ≠ .string) (l : List Char) : r.kind l ≠ .string := by
  cases r with
  | string => exact absurd rfl other
  | word =>
    unfold kind
    cases Keyword.ofText? (String.ofList l) with
    | none => simp
    | some w => simp
  | _ => simp [kind]

theorem keptLexeme {r : Rule} {cs l : List Char} (matched : r.match? cs = some l) (line : Nat) :
    (Token.mk (r.kind l) (r.text l) line).lexeme = l := by
  by_cases quoted : r = .string
  · subst quoted
    obtain ⟨body, rfl, _⟩ := stringMatch matched
    simp [Token.lexeme, kind, text]
  · simp [Token.lexeme, kindString quoted, textPlain quoted]

end Rule

/-! Calls of the scanner -/

structure Scanner.Takes (s : Scanner) (gap : List Char) (t : Token) (s' : Scanner) : Prop where
  rest : s.rest = gap ++ (t.lexeme ++ s'.rest)
  trivia : Trivia (t.lexeme ++ s'.rest) gap
  line : t.line = s.line + gap.count '\n'
  moved : s'.position = s.position + (gap ++ t.lexeme).length
  counted : s'.line = s.line + (gap ++ t.lexeme).count '\n'
  ended : t.kind = .eof → t.text = "" ∧ s'.rest = []
  spelled : t.kind ≠ .eof → t.lexeme ≠ []

namespace Scanner

theorem Takes.finish {s : Scanner} (done : s.rest = []) : s.Takes [] ⟨.eof, "", s.line⟩ s where
  rest := by simp [Token.lexeme, done]
  trivia := .none
  line := by simp
  moved := by simp [Token.lexeme]
  counted := by simp [Token.lexeme]
  ended _ := ⟨rfl, done⟩
  spelled more := absurd rfl more

theorem Takes.kept {s : Scanner} {r : Rule} {l : List Char} (found : Rule.first? s.rest = some (r, l)) :
    s.Takes [] ⟨r.kind l, r.text l, s.line⟩ (s.skip r l) := by
  have matched := Rule.firstMatches found
  have lexeme := Rule.keptLexeme matched s.line
  exact {
    rest := by rw [lexeme]; exact skipSplit found
    trivia := .none
    line := by simp
    moved := by rw [lexeme]; rfl
    counted := by rw [lexeme]; exact skipLine found
    ended := fun last => absurd last (Rule.kindProper r l)
    spelled := fun _ => by rw [lexeme]; exact (matchNotEmpty matched).1 }

theorem Takes.skipped {s s' : Scanner} {r : Rule} {l gap : List Char} {t : Token}
    (found : Rule.first? s.rest = some (r, l)) (trivia : r.isTrivia = true)
    (h : (s.skip r l).Takes gap t s') : s.Takes (l ++ gap) t s' := by
  have split := skipSplit found
  rw [h.rest] at split
  exact {
    rest := by rw [split, List.append_assoc]
    trivia := Rule.skippedTrivia (Rule.firstMatches found) trivia split h.trivia
    line := by rw [h.line, skipLine found, List.count_append, Nat.add_assoc]
    moved := by simp [h.moved, skip, Nat.add_assoc]
    counted := by simp [h.counted, skipLine found, Nat.add_assoc]
    ended := h.ended
    spelled := h.spelled }

theorem takesWithin (n : Nat) (s : Scanner) (enough : s.rest.length < n) :
    ∃ gap, s.Takes gap (s.nextWithin n).1 (s.nextWithin n).2 := by
  induction n generalizing s with
  | zero => omega
  | succ n ih =>
    unfold nextWithin
    split
    · next none => exact ⟨[], .finish (firstDone none)⟩
    · next r l found =>
      split
      · next trivia =>
        have shorter := skipShorter found
        obtain ⟨gap, taken⟩ := ih (s.skip r l) (by omega)
        exact ⟨l ++ gap, taken.skipped found trivia⟩
      · exact ⟨[], .kept found⟩

theorem nextTakes (s : Scanner) : ∃ gap, s.Takes gap s.next.1 s.next.2 :=
  takesWithin _ s (Nat.lt_succ_self _)

theorem nextEnd {s : Scanner} (done : s.rest = []) : s.next = (⟨.eof, "", s.line⟩, s) := by
  have none : Rule.first? s.rest = none := by
    rw [done]
    decide
  unfold next nextWithin
  rw [none]

end Scanner

/-! Whole texts -/

structure Piece where
  gap : List Char
  token : Token
  deriving DecidableEq, Repr

def joined : List Piece → List Char
  | [] => []
  | p :: pieces => p.gap ++ (p.token.lexeme ++ joined pieces)

namespace Scanner

def after (s : Scanner) : Scanner := s.next.2

/- The calls up to the one that gives the end token, which stands behind `last`. -/
inductive Laid : Scanner → List Piece → List Char → Token → Prop where
  | finish {s last t s'} (call : s.next = (t, s')) (taken : s.Takes last t s') (ended : t.kind = .eof) :
      Laid s [] last t
  | step {s gap t s' pieces last finish} (call : s.next = (t, s')) (taken : s.Takes gap t s')
      (proper : t.kind ≠ .eof) (tail : Laid s' pieces last finish) : Laid s (⟨gap, t⟩ :: pieces) last finish

theorem Takes.shorter {s s' : Scanner} {gap : List Char} {t : Token} (h : s.Takes gap t s')
    (proper : t.kind ≠ .eof) : s'.rest.length < s.rest.length := by
  have spelled := List.length_pos_iff.2 (h.spelled proper)
  rw [h.rest, List.length_append, List.length_append]
  omega

theorem Takes.last {s s' : Scanner} {gap : List Char} {t : Token} (h : s.Takes gap t s')
    (ended : t.kind = .eof) :
    t = ⟨.eof, "", s'.line⟩ ∧ s'.rest = [] ∧ s.rest = gap ∧ Trivia [] gap := by
  obtain ⟨kind, text, line⟩ := t
  cases ended
  obtain ⟨none, done⟩ := h.ended rfl
  cases none
  have empty : (Token.mk .eof "" line).lexeme = [] := rfl
  have rest := h.rest
  have trivia := h.trivia
  have counted := h.counted
  rw [empty, done, List.append_nil] at rest trivia
  rw [empty, List.append_nil, ← h.line] at counted
  exact ⟨by rw [counted], done, by rw [rest, List.append_nil], trivia⟩

theorem tokensLaid (n : Nat) (s : Scanner) (enough : s.rest.length < n) :
    ∃ pieces last finish, s.Laid pieces last finish ∧
      s.tokensWithin n = pieces.map Piece.token ++ [finish] := by
  induction n generalizing s with
  | zero => omega
  | succ n ih =>
    obtain ⟨gap, taken⟩ := s.nextTakes
    unfold tokensWithin
    dsimp only
    by_cases ended : s.next.1.kind = .eof
    · rw [if_pos ended]
      exact ⟨[], gap, s.next.1, .finish rfl taken ended, rfl⟩
    · have shorter := taken.shorter ended
      obtain ⟨pieces, last, finish, laid, tokens⟩ := ih s.next.2 (by omega)
      rw [if_neg ended, tokens]
      exact ⟨⟨gap, s.next.1⟩ :: pieces, last, finish, .step rfl taken ended laid, rfl⟩

namespace Laid
variable {s : Scanner} {pieces : List Piece} {last : List Char} {finish : Token}

theorem partition (h : s.Laid pieces last finish) : s.rest = joined pieces ++ last := by
  induction h with
  | finish call taken ended =>
    obtain ⟨_, _, whole, _⟩ := taken.last ended
    exact whole
  | step call taken proper tail ih =>
    rw [taken.rest, ih]
    simp [joined]

theorem ending (h : s.Laid pieces last finish) :
    finish = ⟨.eof, "", s.line + s.rest.count '\n'⟩ ∧ Trivia [] last := by
  induction h with
  | finish call taken ended =>
    obtain ⟨same, _, whole, trivia⟩ := taken.last ended
    have counted := taken.line
    rw [same] at counted ⊢
    rw [whole]
    exact ⟨congrArg _ counted, trivia⟩
  | step call taken proper tail ih =>
    obtain ⟨same, trivia⟩ := ih
    refine ⟨?_, trivia⟩
    rw [same, taken.counted, taken.rest]
    simp [Nat.add_assoc]

theorem placed (h : s.Laid pieces last finish) {front back : List Piece} {p : Piece}
    (split : pieces = front ++ p :: back) :
    p.token.kind ≠ .eof ∧ Trivia (p.token.lexeme ++ (joined back ++ last)) p.gap ∧
      p.token.line = s.line + (joined front ++ p.gap).count '\n' := by
  induction h generalizing front with
  | finish => simp at split
  | step call taken proper tail ih =>
    cases front with
    | nil =>
      cases split
      rw [← tail.partition]
      exact ⟨proper, taken.trivia, taken.line⟩
    | cons q front =>
      cases split
      obtain ⟨kind, trivia, line⟩ := ih rfl
      refine ⟨kind, trivia, ?_⟩
      rw [line, taken.counted]
      simp [joined, Nat.add_assoc]

theorem calls (h : s.Laid pieces last finish) (k : Nat) :
    (after^[k] s).next.1 = (pieces.map Piece.token)[k]?.getD finish := by
  induction h generalizing k with
  | @finish s last t s' call taken ended =>
    obtain ⟨same, done, _⟩ := taken.last ended
    have still : after s' = s' := by rw [after, nextEnd done]
    cases k with
    | zero => simp [call]
    | succ k =>
      rw [Function.iterate_succ_apply, after, call, Function.iterate_fixed still, nextEnd done]
      simp [same]
  | step call taken proper tail ih =>
    cases k with
    | zero => simp [call]
    | succ k =>
      rw [Function.iterate_succ_apply, after, call]
      simpa using ih k

end Laid

/-! Places -/

structure At (source : String) (s : Scanner) : Prop where
  rest : s.rest = source.toList.drop s.position
  within : s.position ≤ source.length
  line : s.line = 1 + (source.toList.take s.position).count '\n'

theorem startAt (source : String) : At source (start source) where
  rest := rfl
  within := Nat.zero_le _
  line := rfl

theorem Takes.keepsPlace {source : String} {s s' : Scanner} {gap : List Char} {t : Token}
    (h : s.Takes gap t s') (here : At source s) : At source s' := by
  have split : source.toList.drop s.position = gap ++ t.lexeme ++ s'.rest := by
    rw [← here.rest, h.rest, List.append_assoc]
  have taken : (source.toList.drop s.position).take (gap ++ t.lexeme).length = gap ++ t.lexeme := by
    rw [split, List.take_left]
  have length := congrArg List.length split
  rw [List.length_drop, List.length_append, String.length_toList] at length
  exact {
    rest := by rw [h.moved, ← List.drop_drop, split, List.drop_left]
    within := by
      have within := here.within
      rw [h.moved]
      omega
    line := by
      rw [h.moved, List.take_add, taken, List.count_append, ← Nat.add_assoc, ← here.line, h.counted] }

theorem Takes.movesOn {source : String} {s s' : Scanner} {gap : List Char} {t : Token}
    (h : s.Takes gap t s') (here : At source s) (more : s.position < source.length) :
    s.position < s'.position := by
  have left : s.rest ≠ [] := by
    intro done
    have length := congrArg List.length here.rest
    rw [done, List.length_drop, String.length_toList, List.length_nil] at length
    omega
  have some : gap ++ t.lexeme ≠ [] := by
    by_cases ended : t.kind = .eof
    · obtain ⟨_, _, whole, _⟩ := h.last ended
      simp [← whole, left]
    · simp [h.spelled ended]
  have length := List.length_pos_iff.2 some
  rw [h.moved]
  omega

theorem afterAt (source : String) (k : Nat) : At source (after^[k] (start source)) := by
  induction k with
  | zero => exact startAt source
  | succ k ih =>
    obtain ⟨gap, taken⟩ := (after^[k] (start source)).nextTakes
    rw [Function.iterate_succ_apply']
    exact taken.keepsPlace ih

end Scanner

/-- A source text is its tokens, in their order, with blanks, line ends and comments between them; the line of
a token counts the line ends before it. The scanner gives these tokens call by call and then the end token
for ever. After each call its place is within the text and its line counts the line ends before that
place, and each call moves on until the text is at its end. -/
theorem sourceLaidOut (source : String) :
    ∃ (pieces : List Piece) (last : List Char) (finish : Token),
      tokenize source = pieces.map Piece.token ++ [finish] ∧
      source.toList = joined pieces ++ last ∧ Trivia [] last ∧
      finish = ⟨.eof, "", 1 + source.toList.count '\n'⟩ ∧
      (∀ front p back, pieces = front ++ p :: back →
        p.token.kind ≠ .eof ∧ Trivia (p.token.lexeme ++ (joined back ++ last)) p.gap ∧
          p.token.line = 1 + (joined front ++ p.gap).count '\n') ∧
      ∀ k, ∃ s, s = Scanner.after^[k] (Scanner.start source) ∧
        s.next.1 = (pieces.map Piece.token)[k]?.getD finish ∧
        s.line = 1 + (source.toList.take s.position).count '\n' ∧ s.position ≤ source.length ∧
        (s.position < source.length → s.position < s.after.position) := by
  obtain ⟨pieces, last, finish, laid, tokens⟩ :=
    Scanner.tokensLaid _ (Scanner.start source) (Nat.lt_succ_self _)
  obtain ⟨ending, trivia⟩ := laid.ending
  refine ⟨pieces, last, finish, tokens, laid.partition, trivia, ending,
    fun front p back split => laid.placed split, fun k => ?_⟩
  have here := Scanner.afterAt source k
  obtain ⟨gap, taken⟩ := (Scanner.after^[k] (Scanner.start source)).nextTakes
  exact ⟨_, rfl, laid.calls k, here.line, here.within, taken.movesOn here⟩

end Baby
