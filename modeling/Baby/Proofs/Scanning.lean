import Baby.Token.Scan

/-! Scanning, followed lexeme by lexeme and without a bound: `Scans` has a derivation from every place in
every text, since some rule matches before the end and no lexeme is empty. -/
namespace Baby

/-! Lexemes -/

theorem signSpelled (s : Sign) : s.text.toList ≠ [] := by
  cases s <;> decide

theorem matchNotEmpty {r : Rule} {cs l : List Char} (h : r.match? cs = some l) :
    l ≠ [] ∧ cs ≠ [] := by
  have taken (p : Char → Bool) (some : ¬ (cs.takeWhile p).isEmpty = true) :
      cs.takeWhile p ≠ [] ∧ cs ≠ [] := by
    refine ⟨by simpa using some, ?_⟩
    rintro rfl
    simp at some
  unfold Rule.match? at h
  split at h
  · dsimp only at h
    split at h
    · cases h
    · cases h
      exact taken _ ‹_›
  · dsimp only at h
    split at h
    · cases h
      simp
    · cases h
  · cases h
    simp
  · split at h
    · cases h
      simp
    · cases h
  · next s =>
    split at h
    · next spelled =>
      cases h
      refine ⟨signSpelled s, ?_⟩
      rintro rfl
      exact signSpelled s (by simpa using spelled)
    · cases h
  · cases h
    simp
  · cases h
    simp
  · cases h
    simp
  · dsimp only at h
    split at h
    · cases h
    · cases h
      exact taken _ ‹_›
  · split at h
    · cases h
    · cases h
      simp
  · cases h

namespace Rule

theorem commentMatch {cs l : List Char} (matched : comment.match? cs = some l) :
    ∃ line, cs = '#' :: line ∧ l = '#' :: line.takeWhile (· ≠ '\n') := by
  cases cs with
  | nil => cases matched
  | cons c line =>
    by_cases hash : c = '#'
    · subst hash
      cases matched
      exact ⟨line, rfl, rfl⟩
    · simp [match?, hash] at matched

theorem newlineMatch {cs l : List Char} (matched : newline.match? cs = some l) :
    l = ['\n'] ∨ l = ['\r', '\n'] := by
  cases cs with
  | nil => cases matched
  | cons c cs =>
    by_cases feed : c = '\n'
    · subst feed
      cases matched
      exact .inl rfl
    · by_cases carriage : c = '\r'
      · subst carriage
        cases cs with
        | nil => cases matched
        | cons d cs =>
          by_cases feed : d = '\n'
          · subst feed
            cases matched
            exact .inr rfl
          · simp [match?, feed] at matched
      · simp [match?, feed, carriage] at matched

theorem wordMatch {cs l : List Char} (matched : word.match? cs = some l) :
    ∃ c parts, l = c :: parts ∧ isWordStart c = true ∧ parts.all isWordPart = true := by
  cases cs with
  | nil => cases matched
  | cons c cs =>
    simp only [match?] at matched
    split at matched
    · next start =>
      cases matched
      exact ⟨c, _, rfl, start, List.all_takeWhile⟩
    · cases matched

theorem firstMatches {cs l : List Char} {r : Rule} (h : first? cs = some (r, l)) :
    r.match? cs = some l := by
  obtain ⟨r', _, matched⟩ := List.exists_of_findSome?_eq_some h
  obtain ⟨l', matched, same⟩ := Option.map_eq_some_iff.1 matched
  cases same
  exact matched

theorem firstFound {cs : List Char} (more : cs ≠ []) : ∃ r l, first? cs = some (r, l) := by
  cases found : first? cs with
  | some p => exact ⟨p.1, p.2, rfl⟩
  | none =>
    have nowhere := List.findSome?_eq_none_iff.1 found
    cases cs with
    | nil => exact absurd rfl more
    | cons c cs =>
      by_cases newline : c = '\n'
      · subst newline
        cases nowhere .newline (by simp [table])
      · have other := nowhere .other (by simp [table])
        simp [match?, newline] at other

theorem kindProper (r : Rule) (l : List Char) : r.kind l ≠ .eof := by
  cases r with
  | word =>
    unfold kind
    cases Keyword.ofText? (String.ofList l) <;> simp
  | _ => simp [kind]

/-! Lines -/

theorem withinLine {p : Char → Bool} {l : List Char} (all : l.all p = true) (feed : p '\n' = false) :
    l.count '\n' = 0 := by
  rw [List.count_eq_zero]
  intro inside
  have taken := List.all_eq_true.1 all _ inside
  simp [feed] at taken

theorem signLine (s : Sign) : s.text.toList.count '\n' = 0 := by
  cases s <;> decide

/- The scanner looks for line ends in strings only, closed or not. A line end has one, whether or not a carriage
return comes before it, and no other rule matches across lines. -/
theorem linesCount {r : Rule} {cs l : List Char} (matched : r.match? cs = some l) :
    r.lines l = l.count '\n' := by
  cases r with
  | string | unterminated => rfl
  | newline =>
    cases newlineMatch matched with
    | inl feed => rw [feed]; rfl
    | inr both => rw [both]; rfl
  | int =>
    simp only [match?] at matched
    split at matched
    · cases matched
    · cases matched
      exact (withinLine List.all_takeWhile (by decide)).symm
  | word =>
    obtain ⟨c, parts, rfl, start, all⟩ := wordMatch matched
    have first : c ≠ '\n' := by
      rintro rfl
      cases start
    rw [List.count_cons_of_ne first, withinLine all (by decide)]
    rfl
  | sign s =>
    simp only [match?] at matched
    split at matched
    · cases matched
      exact (signLine s).symm
    · cases matched
  | comment =>
    obtain ⟨line, rfl, rfl⟩ := commentMatch matched
    rw [List.count_cons_of_ne (by decide), withinLine List.all_takeWhile (by simp)]
    rfl
  | blanks =>
    simp only [match?] at matched
    split at matched
    · cases matched
    · cases matched
      exact (withinLine List.all_takeWhile (by decide)).symm
  | other =>
    cases cs with
    | nil => cases matched
    | cons c cs =>
      simp only [match?] at matched
      split at matched
      · cases matched
      · next plain =>
        cases matched
        rw [List.count_cons_of_ne plain]
        rfl

end Rule

namespace Scanner
variable {s : Scanner} {r : Rule} {l : List Char}

theorem skipLine (found : Rule.first? s.rest = some (r, l)) :
    (s.skip r l).line = s.line + l.count '\n' :=
  congrArg (s.line + ·) (Rule.linesCount (Rule.firstMatches found))

theorem skipShorter (found : Rule.first? s.rest = some (r, l)) :
    (s.skip r l).rest.length < s.rest.length := by
  obtain ⟨some, more⟩ := matchNotEmpty (Rule.firstMatches found)
  have := List.length_pos_iff.2 some
  have := List.length_pos_iff.2 more
  simp only [skip, List.length_drop]
  omega

end Scanner

/-! Tokens -/

inductive Scans : Scanner → List Token → Prop where
  | finish {s} (done : s.rest = []) : Scans s [⟨.eof, "", s.line⟩]
  | trivia {s r l ts} (found : Rule.first? s.rest = some (r, l)) (skipped : r.isTrivia = true)
      (tail : Scans (s.skip r l) ts) : Scans s ts
  | token {s r l ts} (found : Rule.first? s.rest = some (r, l)) (kept : r.isTrivia = false)
      (tail : Scans (s.skip r l) ts) : Scans s (⟨r.kind l, r.text l, s.line⟩ :: ts)

theorem firstDone {s : Scanner} (none : Rule.first? s.rest = none) : s.rest = [] := by
  cases rest : s.rest with
  | nil => rfl
  | cons c cs =>
    have more : s.rest ≠ [] := by simp [rest]
    obtain ⟨r, l, found⟩ := Rule.firstFound more
    cases none.symm.trans found

theorem nextScans (n : Nat) (s : Scanner) (enough : s.rest.length < n) :
    ((s.nextWithin n).1.kind = .eof ∧ Scans s [(s.nextWithin n).1]) ∨
      ((s.nextWithin n).1.kind ≠ .eof ∧ (s.nextWithin n).2.rest.length < s.rest.length ∧
        ∀ ts, Scans (s.nextWithin n).2 ts → Scans s ((s.nextWithin n).1 :: ts)) := by
  induction n generalizing s with
  | zero => omega
  | succ n ih =>
    unfold Scanner.nextWithin
    split
    · next none => exact .inl ⟨rfl, .finish (firstDone none)⟩
    · next r l found =>
      have shorter := Scanner.skipShorter found
      split
      · next skipped =>
        cases ih (s.skip r l) (by omega) with
        | inl last => exact .inl ⟨last.1, .trivia found skipped last.2⟩
        | inr more =>
          obtain ⟨proper, less, scans⟩ := more
          exact .inr ⟨proper, by omega, fun ts tail => .trivia found skipped (scans ts tail)⟩
      · next kept =>
        exact .inr ⟨Rule.kindProper r l, shorter, fun ts tail => .token found (by simpa using kept) tail⟩

theorem tokensScan (n : Nat) (s : Scanner) (enough : s.rest.length < n) :
    Scans s (s.tokensWithin n) := by
  induction n generalizing s with
  | zero => omega
  | succ n ih =>
    unfold Scanner.tokensWithin Scanner.next
    dsimp only
    cases nextScans _ s (Nat.lt_succ_self _) with
    | inl last =>
      rw [if_pos last.1]
      exact last.2
    | inr more =>
      obtain ⟨proper, less, scans⟩ := more
      rw [if_neg proper]
      exact scans _ (ih _ (Nat.lt_of_lt_of_le less (Nat.le_of_lt_succ enough)))

theorem tokenizeScans (source : String) : Scans (Scanner.start source) (tokenize source) :=
  tokensScan _ _ (Nat.lt_succ_self _)

theorem scansOnce {s : Scanner} {ts us : List Token} (h : Scans s ts) (k : Scans s us) : ts = us := by
  have never {s : Scanner} {r : Rule} {l : List Char} (done : s.rest = [])
      (found : Rule.first? s.rest = some (r, l)) : False :=
    (matchNotEmpty (Rule.firstMatches found)).2 done
  induction h generalizing us with
  | finish done =>
    cases k with
    | finish => rfl
    | trivia found | token found => exact (never done found).elim
  | trivia found skipped _ ih =>
    cases k with
    | finish done => exact (never done found).elim
    | trivia found' _ tail =>
      cases found.symm.trans found'
      exact ih tail
    | token found' kept =>
      cases found.symm.trans found'
      simp [skipped] at kept
  | token found kept _ ih =>
    cases k with
    | finish done => exact (never done found).elim
    | trivia found' skipped =>
      cases found.symm.trans found'
      simp [skipped] at kept
    | token found' _ tail =>
      cases found.symm.trans found'
      rw [ih tail]

theorem scansEnd {s : Scanner} {ts : List Token} (h : Scans s ts) :
    ∃ us finish, ts = us ++ [finish] ∧ finish.kind = .eof ∧ ∀ t ∈ us, t.kind ≠ .eof := by
  induction h with
  | finish => exact ⟨[], _, rfl, rfl, by simp⟩
  | trivia _ _ _ ih => exact ih
  | @token s r l ts _ _ _ ih =>
    obtain ⟨us, finish, rfl, ended, proper⟩ := ih
    exact ⟨_ :: us, finish, rfl, ended, List.forall_mem_cons.2 ⟨Rule.kindProper r l, proper⟩⟩

end Baby
