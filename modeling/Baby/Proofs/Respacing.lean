import Baby.Proofs.MaximalMunch

/-! Layout. Blanks, line ends and comments put between the tokens of a source change neither its tokens nor, but
for lines, what is read from them. -/
namespace Baby
open Text.Digit (isDigit)
open scoped Computability

/-! Tokens without lines -/

def Token.content (t : Token) : Kind × String := (t.kind, t.text)

def contents (cs : List Char) : List (Kind × String) := (tokenize (String.ofList cs)).map Token.content

theorem lowerContent (k : Nat) (ts : List Token) :
    (ts.map (Token.lower k)).map Token.content = ts.map Token.content := by
  rw [List.map_map]
  rfl

theorem scansContents {s : Scanner} {ts : List Token} (h : Scans s ts) :
    ts.map Token.content = contents s.rest := by
  have other := tokenizeScans (String.ofList s.rest)
  have here := scansLower h 0 1
  have there := scansLower other 0 s.line
  unfold Scanner.start at there
  rw [String.toList_ofList, Nat.add_comm 1 s.line] at there
  have same := scansOnce here there
  rw [contents, ← lowerContent 1 ts, same, lowerContent]

section
variable {r : Rule} {l cs : List Char}

theorem contentsSkip (found : Rule.first? (l ++ cs) = some (r, l)) (skipped : r.isTrivia = true) :
    contents (l ++ cs) = contents cs := by
  have tail := tokensScan _ (Scanner.skip ⟨l ++ cs, 0, 1⟩ r l) (Nat.lt_succ_self _)
  have rest : (Scanner.skip ⟨l ++ cs, 0, 1⟩ r l).rest = cs := by simp [Scanner.skip]
  have whole := scansContents (Scans.trivia (s := ⟨l ++ cs, 0, 1⟩) found skipped tail)
  rw [← whole, scansContents tail, rest]

theorem contentsKeep (found : Rule.first? (l ++ cs) = some (r, l)) (kept : r.isTrivia = false) :
    contents (l ++ cs) = (r.kind l, r.text l) :: contents cs := by
  have tail := tokensScan _ (Scanner.skip ⟨l ++ cs, 0, 1⟩ r l) (Nat.lt_succ_self _)
  have rest : (Scanner.skip ⟨l ++ cs, 0, 1⟩ r l).rest = cs := by simp [Scanner.skip]
  have whole := scansContents (Scans.token (s := ⟨l ++ cs, 0, 1⟩) found kept tail)
  rw [← whole, List.map_cons, scansContents tail, rest]
  rfl

end

/-! Fillers -/

/- Blanks, line ends and comments, each comment with the end of its line. -/
inductive Filler : List Char → Prop where
  | none : Filler []
  | blank {c cs} (gap : c = ' ' ∨ c = '\t' ∨ c = '\r') (more : Filler cs) : Filler (c :: cs)
  | lineEnd {cs} (more : Filler cs) : Filler ('\n' :: cs)
  | comment {body cs} (inside : '\n' ∉ body) (more : Filler cs) : Filler ('#' :: (body ++ '\n' :: cs))

namespace Rule

theorem commentFirst (line : List Char) :
    first? ('#' :: line) = some (comment, '#' :: line.takeWhile (· ≠ '\n')) := by
  have apart : ∀ q ∈ [int, string, unterminated, word] ++ Sign.all.map sign,
      q.front?.isSome ∧ q.front? ≠ some .hash := by decide
  exact frontFirst ([int, string, unterminated, word] ++ Sign.all.map sign) rfl rfl (matchLongest.1 rfl)
    fun q above => ⟨(apart q above).1, fun same => absurd same (apart q above).2⟩

theorem blanksFirst {c : Char} {cs : List Char} (gap : isGap c = true)
    (never : newline.match? (c :: cs) = none) :
    first? (c :: cs) = some (blanks, (c :: cs).takeWhile isGap) := by
  have apart : ∀ q ∈ [int, string, unterminated, word] ++ Sign.all.map sign ++ [comment, newline],
      q.front?.isSome ∧ (q.front? = some .space → q = newline) := by decide
  have matched : blanks.match? (c :: cs) = some ((c :: cs).takeWhile isGap) := by
    simp [match?, gap]
  exact frontFirst ([int, string, unterminated, word] ++ Sign.all.map sign ++ [comment, newline]) rfl rfl
    (matchLongest.1 matched) fun q above => ⟨(apart q above).1, fun same => (apart q above).2 same ▸ never⟩

end Rule

theorem contentsLineEnd (cs : List Char) : contents ('\n' :: cs) = contents cs := by
  have found := Rule.firstBreak (.inl rfl) cs
  exact contentsSkip (l := ['\n']) found rfl

theorem contentsGap (cs : List Char) : contents cs = contents (cs.dropWhile Rule.isGap) := by
  cases cs with
  | nil => rfl
  | cons c cs =>
    by_cases gap : Rule.isGap c = true
    · cases matched : Rule.newline.match? (c :: cs) with
      | none =>
        have split := List.takeWhile_append_dropWhile (p := Rule.isGap) (l := c :: cs)
        have found : Rule.first? ((c :: cs).takeWhile Rule.isGap ++ (c :: cs).dropWhile Rule.isGap) =
            some (.blanks, (c :: cs).takeWhile Rule.isGap) := by
          rw [split, Rule.blanksFirst gap matched]
        have skipped := contentsSkip found rfl
        rwa [split] at skipped
      | some l =>
        obtain ⟨rest, split⟩ := Rule.matchBegins matched
        rcases Rule.newlineMatch matched with rfl | rfl
        · cases split
          cases gap
        · rw [← split, contentsSkip (Rule.firstBreak (.inr rfl) rest) rfl]
          exact (contentsLineEnd rest).symm
    · rw [List.dropWhile_cons_of_neg gap]

theorem contentsBlank {c : Char} (gap : c = ' ' ∨ c = '\t' ∨ c = '\r') (cs : List Char) :
    contents (c :: cs) = contents cs := by
  have blank : Rule.isGap c = true := by rcases gap with rfl | rfl | rfl <;> rfl
  rw [contentsGap (c :: cs), List.dropWhile_cons_of_pos blank, ← contentsGap cs]

theorem contentsComment {body rest : List Char} (inside : '\n' ∉ body)
    (ended : ∀ c ∈ rest.head?, c = '\n') : contents ('#' :: (body ++ rest)) = contents rest := by
  have taken : (body ++ rest).takeWhile (fun c => decide (c ≠ '\n')) = body := by
    refine Rule.takeWhileWhole (fun c member => ?_) fun c first => ?_
    · rw [decide_eq_true_eq]
      exact fun same => inside (same ▸ member)
    · simpa using ended c first
  have found := Rule.commentFirst (body ++ rest)
  rw [taken] at found
  exact contentsSkip (l := '#' :: body) found rfl

theorem Filler.contents {f : List Char} (h : Filler f) (cs : List Char) : contents (f ++ cs) = contents cs := by
  induction h with
  | none => rfl
  | blank gap _ ih => rw [List.cons_append, contentsBlank gap, ih]
  | lineEnd _ ih => rw [List.cons_append, contentsLineEnd, ih]
  | @comment body f inside _ ih =>
    rw [List.cons_append, List.append_assoc, contentsComment inside (by simp), List.cons_append,
      contentsLineEnd, ih]

theorem Filler.behindComment {f : List Char} (h : Filler f) {body : List Char} (inside : '\n' ∉ body) :
    Baby.contents ('#' :: (body ++ f)) = Baby.contents [] := by
  induction h generalizing body with
  | none => exact contentsComment inside (by simp)
  | @blank c f gap _ ih =>
    have plain : '\n' ∉ body ++ [c] := by
      rcases gap with rfl | rfl | rfl <;> simp [inside]
    simpa using ih plain
  | @lineEnd f more _ =>
    rw [contentsComment inside (by simp), contentsLineEnd]
    simpa using more.contents []
  | @comment other f inside' more _ =>
    have plain : '\n' ∉ body ++ '#' :: other := by simp [inside, inside']
    have skipped : Baby.contents ('#' :: (body ++ '#' :: other ++ '\n' :: f)) = Baby.contents ('\n' :: f) :=
      contentsComment plain (by simp)
    have rest : Baby.contents f = Baby.contents [] := by simpa using more.contents []
    rw [contentsLineEnd, rest] at skipped
    simpa using skipped

theorem Trivia.behind {last f : List Char} (h : Trivia [] last) (more : Filler f) :
    contents (last ++ f) = contents [] := by
  induction h with
  | none => simpa using more.contents []
  | blank gap _ ih => rw [List.cons_append, contentsBlank gap, ih]
  | lineEnd _ ih => rw [List.cons_append, contentsLineEnd, ih]
  | @comment body cs inside ended _ ih =>
    cases cs with
    | nil => simpa using more.behindComment inside
    | cons c cs =>
      have feed : c = '\n' := ended c rfl
      rw [List.cons_append, List.append_assoc, contentsComment inside (by simp [feed]), ih]

theorem Trivia.filler {rest gap : List Char} (h : Trivia rest gap) {c : Char} (first : rest.head? = some c)
    (other : c ≠ '\n') : Filler gap := by
  induction h with
  | none => exact .none
  | blank gap _ ih => exact .blank gap ih
  | lineEnd _ ih => exact .lineEnd ih
  | @comment body cs inside ended _ ih =>
    cases cs with
    | nil => exact absurd (ended c first) other
    | cons d cs =>
      have feed : d = '\n' := ended d rfl
      subst feed
      cases ih with
      | blank gap => simp at gap
      | lineEnd more => exact .comment inside more

/-! Tokens before a filler -/

def isLoose (c : Char) : Bool := [' ', '\t', '\r', '\n', '#'].contains c

theorem tightOf {p : Char → Bool} {c : Char} (never : [' ', '\t', '\r', '\n', '#'].all (!p ·) = true)
    (holds : p c = true) : isLoose c = false := by
  rw [Bool.eq_false_iff]
  intro loose
  have other := List.all_eq_true.1 never c (List.contains_iff_mem.1 loose)
  simp [holds] at other

theorem Filler.head {f : List Char} (h : Filler f) {c : Char} (first : c ∈ f.head?) : isLoose c = true := by
  cases h with
  | none => cases first
  | blank gap =>
    cases first
    rcases gap with rfl | rfl | rfl <;> rfl
  | lineEnd | comment =>
    cases first
    rfl

def spread (fill : Nat → List Char) : Nat → List Char → List Char
  | _, [] => []
  | n, c :: cs => c :: (fill (n + 1) ++ spread fill (n + 1) cs)

section
variable {fill : Nat → List Char} (fillers : ∀ n, Filler (fill n))
include fillers

theorem spreadHead {n : Nat} {cs : List Char} {c : Char} (first : c ∈ (fill n ++ spread fill n cs).head?)
    (tight : isLoose c = false) : fill n = [] ∧ ∃ rest, cs = c :: rest := by
  cases filled : fill n with
  | nil =>
    rw [filled] at first
    cases cs with
    | nil => cases first
    | cons d cs =>
      cases first
      exact ⟨rfl, cs, rfl⟩
  | cons d f =>
    rw [filled] at first
    have there : c ∈ (fill n).head? := by rw [filled]; exact first
    cases tight.symm.trans ((fillers n).head there)

theorem spreadBegins {n : Nat} {cs l : List Char} (tight : ∀ c ∈ l, isLoose c = false)
    (begins : l <+: fill n ++ spread fill n cs) : l <+: cs := by
  induction l generalizing n cs with
  | nil => exact List.nil_prefix
  | cons c l ih =>
    rw [List.forall_mem_cons] at tight
    have first : c ∈ (fill n ++ spread fill n cs).head? := by
      obtain ⟨rest, split⟩ := begins
      rw [← split]
      rfl
    obtain ⟨none, rest, rfl⟩ := spreadHead fillers first tight.1
    rw [none, List.nil_append, spread, List.cons_prefix_cons] at begins
    exact List.cons_prefix_cons.2 ⟨rfl, ih tight.2 begins.2⟩

end

namespace Rule

theorem frontNamed {c : Char} (plain : Front.of c ≠ .sign) :
    ∃ q ∈ table, q.front?.isSome ∧ [c] ∈ q.language := by
  unfold Front.of at plain
  split at plain
  · next digit => exact ⟨int, by decide, rfl, memSome.2 ⟨c, [], rfl, digit, by simp⟩⟩
  · split at plain
    · next quote => exact ⟨unterminated, by decide, rfl, memAfter.2 ⟨[], by rw [quote], by simp⟩⟩
    · split at plain
      · next start => exact ⟨word, by decide, rfl, memSome.2 ⟨c, [], rfl, start, by simp⟩⟩
      · split at plain
        · next hash => exact ⟨comment, by decide, rfl, memAfter.2 ⟨[], by rw [hash], by simp⟩⟩
        · split at plain
          · next space =>
            cases Bool.or_eq_true_iff.1 space with
            | inl gap => exact ⟨blanks, by decide, rfl, memSome.2 ⟨c, [], rfl, gap, by simp⟩⟩
            | inr feed =>
              exact ⟨newline, by decide, rfl, memLineEnd.2 (.inl (by rw [of_decide_eq_true feed]))⟩
          · exact absurd rfl plain

theorem munchedFront {cs l : List Char} {c : Char} {r : Rule} (h : Munched cs r (c :: l))
    (plain : Front.of c ≠ .sign) : r.front? = some (Front.of c) := by
  cases known : r.front? with
  | some front => rw [namedFront known h.named]
  | none =>
    obtain rfl : r = other := by
      cases r with
      | other => rfl
      | _ => cases known
    obtain ⟨_, _, split⟩ := h.named
    cases split
    have lower : ∀ q ∈ table, q.front?.isSome → table.idxOf q < table.idxOf other := by decide
    obtain ⟨q, there, some, named⟩ := frontNamed plain
    exact absurd (h.earliest q there named) (Nat.not_le_of_lt (lower q there some))

theorem looseTrivia {r : Rule} {front : Front} (here : r.front? = some front)
    (loose : front = .hash ∨ front = .space) : r.isTrivia = true := by
  cases r with
  | comment | newline | blanks => rfl
  | _ => rcases loose with rfl | rfl <;> cases here

theorem quoteRule {r : Rule} (here : r.front? = some .quote) : r = string ∨ r = unterminated := by
  cases r with
  | string => exact .inl rfl
  | unterminated => exact .inr rfl
  | _ => cases here

theorem signTight (s : Sign) : ∀ c ∈ s.text.toList, isLoose c = false := by
  have tight : s.text.toList.all (fun c => !isLoose c) = true := by cases s <;> rfl
  intro c member
  simpa using List.all_eq_true.1 tight c member

theorem memSomeMore {p q : Char → Bool} {d c : Char} {l more : List Char}
    (named : d :: l ++ c :: more ∈ one p * (one q)∗) : q c = true ∧ d :: l ++ [c] ∈ one p * (one q)∗ := by
  obtain ⟨_, cs, split, first, others⟩ := memSome.1 named
  obtain ⟨rfl, same⟩ := List.cons.inj split
  rw [← show l ++ c :: more = cs from same, List.forall_mem_append, List.forall_mem_cons] at others
  refine ⟨others.2.1, memSome.2 ⟨d, l ++ [c], rfl, first, ?_⟩⟩
  exact List.forall_mem_append.2 ⟨others.1, List.forall_mem_singleton.2 others.2.1⟩

theorem quotedWhole {l more : List Char} {c : Char} (closed : l ∈ string.language) :
    l ++ c :: more ∉ string.language ∧ l ++ c :: more ∉ unterminated.language := by
  obtain ⟨body, rfl, _⟩ := memBetween.1 closed
  constructor
  · intro named
    obtain ⟨cs, split, plain⟩ := memBetween.1 named
    have same : body ++ ['"'] ++ c :: more = cs ++ ['"'] := (List.cons.inj split).2
    cases List.prefix_concat_iff.1 ⟨_, same⟩ with
    | inl whole =>
      rw [whole] at same
      simp at same
    | inr inside => simpa using plain '"' (inside.subset (by simp))
  · intro named
    obtain ⟨cs, split, plain⟩ := memAfter.1 named
    have same : body ++ ['"'] ++ c :: more = cs := (List.cons.inj split).2
    simpa using plain '"' (by simp [← same])

theorem keptBefore {fill : Nat → List Char} (fillers : ∀ n, Filler (fill n)) {r : Rule} {l rest : List Char}
    (found : first? (l ++ rest) = some (r, l)) (kept : r.isTrivia = false) (closed : r ≠ unterminated)
    (n : Nat) : first? (l ++ (fill n ++ spread fill n rest)) = some (r, l) := by
  have old := firstMunched found
  refine munchedFirst.1 ⟨old.known, List.prefix_append _ _, old.named, fun q known m named begins => ?_,
    old.earliest⟩
  by_contra longer
  obtain ⟨more, rfl⟩ := List.prefix_of_prefix_length_le (List.prefix_append l _) begins (by omega)
  have after := (List.prefix_append_right_inj l).1 begins
  obtain ⟨d, l, rfl⟩ := List.exists_cons_of_ne_nil (matchNotEmpty (firstMatches found)).1
  cases more with
  | nil => simp at longer
  | cons c more =>
    -- A character of no filler was there before, and no rule went on with it.
    have stops (tight : isLoose c = false) {q : Rule} (known : q ∈ table) : d :: l ++ [c] ∉ q.language := by
      intro named
      have first : c ∈ (fill n ++ spread fill n rest).head? := by
        obtain ⟨_, split⟩ := after
        rw [← split]
        rfl
      obtain ⟨_, rest, rfl⟩ := spreadHead fillers first tight
      have shorter := old.longest q known _ named ⟨rest, by simp⟩
      simp only [List.length_append, List.length_cons, List.length_nil] at shorter
      omega
    have fronts {front : Front} (there : q.front? = some front) (plain : front ≠ .sign) :
        r.front? = some front := by
      have same := namedFront there named
      rw [← same] at plain ⊢
      exact munchedFront old plain
    have trivia {front : Front} (here : r.front? = some front) (loose : front = .hash ∨ front = .space) :
        False := by
      cases kept.symm.trans (looseTrivia here loose)
    have whole (here : r.front? = some .quote) : d :: l ∈ string.language :=
      (quoteRule here).resolve_right closed ▸ old.named
    cases q with
    | int =>
      obtain ⟨digit, named⟩ := memSomeMore named
      exact stops (tightOf (p := isDigit) (by decide) digit) known named
    | word =>
      obtain ⟨part, named⟩ := memSomeMore named
      exact stops (tightOf (p := isWordPart) (by decide) part) known named
    | string => exact (quotedWhole (whole (fronts rfl (by simp)))).1 named
    | unterminated => exact (quotedWhole (whole (fronts rfl (by simp)))).2 named
    | comment => exact trivia (fronts rfl (by simp)) (.inl rfl)
    | newline | blanks => exact trivia (fronts rfl (by simp)) (.inr rfl)
    | sign s =>
      have same : d :: l ++ c :: more = s.text.toList := named
      have tight := signTight s
      rw [← same, List.forall_mem_append] at tight
      have there : d :: l ++ c :: more <+: d :: l ++ rest :=
        (List.prefix_append_right_inj _).2 (spreadBegins fillers tight.2 after)
      exact longer (old.longest _ known _ named there)
    | other =>
      obtain ⟨_, _, split⟩ := named
      simp at split

theorem openLast {l rest : List Char} (found : first? (l ++ rest) = some (unterminated, l)) : rest = [] := by
  have munched := firstMunched found
  obtain ⟨body, rfl, plain⟩ := memAfter.1 munched.named
  cases rest with
  | nil => rfl
  | cons c rest =>
    have longer {q : Rule} (known : q ∈ table) (named : '"' :: (body ++ [c]) ∈ q.language) : False := by
      have shorter := munched.longest q known _ named ⟨rest, by simp⟩
      simp only [List.length_append, List.length_cons, List.length_nil] at shorter
      omega
    by_cases quote : c = '"'
    · subst quote
      exact (longer (q := string) (by decide) (memBetween.2 ⟨body, rfl, plain⟩)).elim
    · have more : ∀ d ∈ body ++ [c], decide (d ≠ '"') = true :=
        List.forall_mem_append.2 ⟨plain, List.forall_mem_singleton.2 (by simpa using quote)⟩
      exact (longer (q := unterminated) (by decide) (memAfter.2 ⟨_, rfl, more⟩)).elim

end Rule

/-! Places of fillers -/

def Token.Open (t : Token) : Prop := t.kind = .illegal ∧ t.text.toList.head? = some '"'

namespace Scanner

/- The places directly behind a token, from the scanner on. An open string has no such place. -/
inductive Behind : Scanner → Nat → Prop where
  | here {s t s'} (call : s.next = (t, s')) (proper : t.kind ≠ .eof) (closed : ¬ t.Open) : Behind s s'.position
  | later {s t s' n} (call : s.next = (t, s')) (proper : t.kind ≠ .eof) (there : Behind s' n) : Behind s n

structure Finds (t : Token) (rest : List Char) (r : Rule) : Prop where
  found : Rule.first? (t.lexeme ++ rest) = some (r, t.lexeme)
  kept : r.isTrivia = false
  content : t.content = (r.kind t.lexeme, r.text t.lexeme)

theorem findsWithin (n : Nat) (s : Scanner) (enough : s.rest.length < n)
    (proper : (s.nextWithin n).1.kind ≠ .eof) :
    ∃ r, Finds (s.nextWithin n).1 (s.nextWithin n).2.rest r := by
  induction n generalizing s with
  | zero => omega
  | succ n ih =>
    unfold nextWithin at proper ⊢
    split
    · next none => simp [none] at proper
    · next r l found =>
      rw [found] at proper
      dsimp only at proper
      have shorter := skipShorter found
      split
      · next skipped =>
        rw [if_pos skipped] at proper
        exact ih (s.skip r l) (by omega) proper
      · next kept =>
        have lexeme := Rule.keptLexeme (Rule.firstMatches found) s.line
        exact ⟨r, by rw [lexeme, ← skipSplit found, found], by simpa using kept, by rw [lexeme]; rfl⟩

theorem nextFinds {s s' : Scanner} {t : Token} (call : s.next = (t, s')) (proper : t.kind ≠ .eof) :
    ∃ r, Finds t s'.rest r := by
  have finds := findsWithin _ s (Nat.lt_succ_self _)
  rw [show s.nextWithin _ = (t, s') from call] at finds
  exact finds proper

theorem Takes.forward {s s' : Scanner} {gap : List Char} {t : Token} (h : s.Takes gap t s')
    (proper : t.kind ≠ .eof) : s.position + gap.length < s'.position := by
  have spelled := List.length_pos_iff.2 (h.spelled proper)
  rw [h.moved, List.length_append]
  omega

theorem Behind.further {s : Scanner} {n : Nat} (h : s.Behind n) : s.position < n := by
  have forward {s s' : Scanner} {t : Token} (call : s.next = (t, s')) (proper : t.kind ≠ .eof) :
      s.position < s'.position := by
    obtain ⟨gap, taken⟩ := s.nextTakes
    rw [call] at taken
    have further : s.position + gap.length < s'.position := taken.forward proper
    omega
  induction h with
  | here call proper => exact forward call proper
  | later call proper _ ih => exact Nat.lt_trans (forward call proper) ih

end Scanner

theorem spreadAppend {fill : Nat → List Char} {n : Nat} {l : List Char} (some : l ≠ []) (cs : List Char)
    (none : ∀ i, n < i → i < n + l.length → fill i = []) :
    spread fill n (l ++ cs) = l ++ (fill (n + l.length) ++ spread fill (n + l.length) cs) := by
  induction l generalizing n with
  | nil => exact absurd rfl some
  | cons c l ih =>
    cases l with
    | nil => rfl
    | cons d l =>
      have inside : fill (n + 1) = [] := none _ (by omega) (by simp)
      have place : n + 1 + (d :: l).length = n + (c :: d :: l).length := by simp; omega
      have rest := ih (n := n + 1) (by simp) fun i low high => none i (by omega) (by omega)
      rw [place] at rest
      rw [List.cons_append, spread, inside, List.nil_append, rest]
      rfl

namespace Scanner
variable {fill : Nat → List Char} {s s' : Scanner} {gap : List Char} {t : Token} {r : Rule}

theorem Finds.start (h : Finds t s.rest r) : ∃ c l, t.lexeme = c :: l ∧ c ≠ '\n' := by
  obtain ⟨c, l, spelled⟩ := List.exists_cons_of_ne_nil (matchNotEmpty (Rule.firstMatches h.found)).1
  refine ⟨c, l, spelled, ?_⟩
  rintro rfl
  have munched := Rule.firstMunched h.found
  rw [spelled] at munched
  have front := Rule.munchedFront munched (by decide)
  cases h.kept.symm.trans (Rule.looseTrivia front (.inr rfl))

theorem Finds.opens (h : Finds t s.rest .unterminated) : t.Open := by
  obtain ⟨kind, text⟩ := Prod.mk.inj h.content
  obtain ⟨body, spelled, _⟩ := Rule.memAfter.1 (Rule.firstMunched h.found).named
  refine ⟨kind, ?_⟩
  rw [text, Rule.textPlain (by simp), String.toList_ofList, spelled]
  rfl

theorem Takes.spread (fillers : ∀ n, Filler (fill n)) (h : s.Takes gap t s') (proper : t.kind ≠ .eof)
    (none : ∀ i, s.position < i → i < s'.position → i ≠ s.position + gap.length → fill i = []) :
    ∃ mid, Filler mid ∧ spread fill s.position s.rest =
      gap ++ (mid ++ (t.lexeme ++ (fill s'.position ++ spread fill s'.position s'.rest))) := by
  have place : s.position + gap.length + t.lexeme.length = s'.position := by
    rw [h.moved, List.length_append, Nat.add_assoc]
  have forward := h.forward proper
  have lexeme : Baby.spread fill (s.position + gap.length) (t.lexeme ++ s'.rest) =
      t.lexeme ++ (fill s'.position ++ Baby.spread fill s'.position s'.rest) := by
    rw [← place]
    exact spreadAppend (h.spelled proper) s'.rest fun i low high => none i (by omega) (by omega) (by omega)
  rw [h.rest]
  cases gap with
  | nil => exact ⟨[], .none, lexeme⟩
  | cons c gap =>
    refine ⟨_, fillers (s.position + (c :: gap).length), ?_⟩
    rw [← lexeme]
    exact spreadAppend (by simp) _ fun i low high => none i low (by omega) (by omega)

def Admits (s : Scanner) (n : Nat) : Prop :=
  s.Behind n ∨ ∃ gap, s.Takes gap s.next.1 s.next.2 ∧ n = s.position + gap.length

theorem Laid.respaced (fillers : ∀ n, Filler (fill n))
    {pieces : List Piece} {last : List Char} {finish : Token} (laid : s.Laid pieces last finish)
    (placed : ∀ n, s.position < n → fill n ≠ [] → s.Admits n) :
    contents (spread fill s.position s.rest) = contents s.rest := by
  induction laid with
  | @finish s last t s' call taken ended =>
    obtain ⟨_, _, whole, trivia⟩ := taken.last ended
    have none : ∀ i, s.position < i → i < s.position + last.length → fill i = [] := by
      intro i low high
      by_contra some
      rcases placed i low some with behind | ⟨gap, taken', place⟩
      · cases behind with
        | here call' proper | later call' proper =>
          cases call.symm.trans call'
          exact proper ended
      · rw [call] at taken'
        have same : s.rest = gap := (taken'.last ended).2.2.1
        rw [whole] at same
        rw [← same] at place
        omega
    rw [whole]
    cases last with
    | nil => rfl
    | cons c last =>
      have spaced := spreadAppend (by simp) [] none
      rw [List.append_nil] at spaced
      have plain := trivia.behind .none
      rw [List.append_nil] at plain
      rw [spaced, plain, spread, List.append_nil, trivia.behind (fillers _)]
  | @step s gap t s' pieces last finish call taken proper tail ih =>
    obtain ⟨r, finds⟩ := nextFinds call proper
    have forward := taken.forward proper
    -- Up to the end of the token there is only the place before it, and behind it only the end itself.
    have before {i : Nat} (low : s.position < i) (high : i ≤ s'.position) (some : fill i ≠ []) :
        i = s.position + gap.length ∨ i = s'.position ∧ ¬ t.Open := by
      rcases placed i low some with behind | ⟨gap', taken', place⟩
      · cases behind with
        | here call' _ closed =>
          cases call.symm.trans call'
          exact .inr ⟨rfl, closed⟩
        | later call' _ there =>
          cases call.symm.trans call'
          exact absurd there.further (Nat.not_lt_of_le high)
      · rw [call] at taken'
        have moved := taken.moved.symm.trans taken'.moved
        simp only [List.length_append] at moved
        exact .inl (by omega)
    have later : ∀ n, s'.position < n → fill n ≠ [] → s'.Admits n := by
      intro n further some
      rcases placed n (by omega) some with behind | ⟨gap', taken', place⟩
      · cases behind with
        | here call' =>
          cases call.symm.trans call'
          exact absurd further (Nat.lt_irrefl _)
        | later call' _ there =>
          cases call.symm.trans call'
          exact .inl there
      · rw [call] at taken'
        have forward' : s.position + gap'.length < s'.position := taken'.forward proper
        omega
    obtain ⟨mid, filler, spaced⟩ := taken.spread fillers proper fun i low high other => by
      by_contra some
      rcases before low (Nat.le_of_lt high) some with place | place
      · exact other place
      · omega
    have kept : Rule.first? (t.lexeme ++ (fill s'.position ++ Baby.spread fill s'.position s'.rest)) =
        some (r, t.lexeme) := by
      by_cases opened : r = .unterminated
      · subst opened
        have done := Rule.openLast finds.found
        have none : fill s'.position = [] := by
          by_contra some
          rcases before (by omega) (Nat.le_refl _) some with place | place
          · omega
          · exact place.2 finds.opens
        have same := finds.found
        rw [done] at same
        rw [none, done]
        exact same
      · exact Rule.keptBefore fillers finds.found finds.kept opened _
    obtain ⟨c, l, spelled, other⟩ := finds.start
    have gapFiller : Filler gap := taken.trivia.filler (c := c) (by rw [spelled]; rfl) other
    rw [spaced, gapFiller.contents, filler.contents, contentsKeep kept finds.kept, (fillers _).contents,
      ih later, taken.rest, gapFiller.contents, contentsKeep finds.found finds.kept]

end Scanner

/-! Whole sources -/

def respaced (fill : Nat → List Char) (source : String) : String :=
  String.ofList (fill 0 ++ spread fill 0 source.toList)

/- The start of the source, the place directly before its first token, and those directly behind a token that
is no open string. -/
def Boundary (source : String) (n : Nat) : Prop := n = 0 ∨ (Scanner.start source).Admits n

theorem tokenizeRespaced {source : String} {fill : Nat → List Char} (fillers : ∀ n, Filler (fill n))
    (placed : ∀ n, fill n ≠ [] → Boundary source n) :
    (tokenize (respaced fill source)).map Token.content = (tokenize source).map Token.content := by
  obtain ⟨pieces, last, finish, laid, _⟩ :=
    Scanner.tokensLaid _ (Scanner.start source) (Nat.lt_succ_self _)
  have inside := laid.respaced fillers fun n later some =>
    (placed n some).resolve_left (Nat.ne_of_gt later)
  have whole := (fillers 0).contents (spread fill 0 source.toList)
  rw [scansContents (tokenizeScans (respaced fill source)), scansContents (tokenizeScans source)]
  unfold respaced Scanner.start at *
  rw [String.toList_ofList, whole, inside]

theorem parseContents {source other : String} {p : Parsed}
    (same : (tokenize source).map Token.content = (tokenize other).map Token.content)
    (read : parse source = .ok p) :
    ∃ q, parse other = .ok q ∧ p.tree.Alike q.tree ∧ p.errors.length = q.errors.length := by
  obtain ⟨ts, finish, tokens, _⟩ := scansEnd (tokenizeScans source)
  obtain ⟨us, finish', tokens', _⟩ := scansEnd (tokenizeScans other)
  have like {t u : Token} (same : t.content = u.content) : t.Like u :=
    ⟨congrArg Prod.fst same, fun _ => congrArg Prod.snd same⟩
  rw [tokens, tokens', List.map_append, List.map_append] at same
  obtain ⟨front, last⟩ := List.append_inj' same rfl
  have ahead : List.Forall₂ Token.Like ts us := by
    rw [← List.forall₂_eq_eq_eq, List.forall₂_map_left_iff, List.forall₂_map_right_iff] at front
    exact front.imp fun _ _ => like
  unfold parse parseTokens at read ⊢
  rw [tokens, Cursor.ofTokensConcat] at read
  rw [tokens', Cursor.ofTokensConcat]
  cases run : Parser.program.run ⟨ts, finish, []⟩ with
  | error o =>
    rw [run] at read
    cases read
  | ok out =>
    obtain ⟨tree, c⟩ := out
    rw [run] at read
    cases read
    obtain ⟨tree', d, run', alike, after⟩ := likeRun ahead (like (List.singleton_inj.1 last)) run
    exact ⟨⟨tree', d.errors⟩, by rw [run']; rfl, alike, after.errors⟩

/-- Blanks, line ends and comments that are put at the start of a source, before its first token or behind any
token that is no open string, all at once, leave its tokens as they are but for lines. So the same tree is read
but for lines, with as many errors, and a source that cannot be read stays so. -/
theorem layoutIgnored (source : String) (fill : Nat → List Char) (fillers : ∀ n, Filler (fill n))
    (placed : ∀ n, fill n ≠ [] → Boundary source n) :
    (tokenize (respaced fill source)).map Token.content = (tokenize source).map Token.content ∧
    (∀ p, parse source = .ok p → ∃ q, parse (respaced fill source) = .ok q ∧
      p.tree.Alike q.tree ∧ p.errors.length = q.errors.length) ∧
    ((∃ p, parse source = .ok p) ↔ ∃ q, parse (respaced fill source) = .ok q) := by
  have same := tokenizeRespaced fillers placed
  refine ⟨same, fun p read => parseContents same.symm read, ?_, ?_⟩
  · intro ⟨p, read⟩
    obtain ⟨q, read', _⟩ := parseContents same.symm read
    exact ⟨q, read'⟩
  · intro ⟨q, read⟩
    obtain ⟨p, read', _⟩ := parseContents same read
    exact ⟨p, read'⟩

def partedFill : Nat → List Char
  | 0 => "# a\n".toList
  | 2 => ['\r', '\n']
  | _ => []

theorem layoutIgnoredPartedSigns :
    respaced partedFill "a!&b" = "# a\na!\r\n&b" ∧ (∀ n, Filler (partedFill n)) ∧
    (∀ n, partedFill n ≠ [] → Boundary "a!&b" n) ∧
    (tokenize "# a\na!\r\n&b").map Token.content = (tokenize "a!&b").map Token.content ∧
    (∀ p, parse "a!&b" = .ok p → ∃ q, parse "# a\na!\r\n&b" = .ok q ∧
      p.tree.Alike q.tree ∧ p.errors.length = q.errors.length) ∧
    ((∃ p, parse "a!&b" = .ok p) ↔ ∃ q, parse "# a\na!\r\n&b" = .ok q) := by
  have text : respaced partedFill "a!&b" = "# a\na!\r\n&b" := by decide
  have fillers (n : Nat) : Filler (partedFill n) := by
    match n with
    | 0 => exact @Filler.comment [' ', 'a'] [] (by simp) .none
    | 2 => exact .blank (.inr (.inr rfl)) (.lineEnd .none)
    | 1 | n + 3 => exact .none
  have placed (n : Nat) (some : partedFill n ≠ []) : Boundary "a!&b" n := by
    match n with
    | 0 => exact .inl rfl
    | 2 =>
      have name : (Scanner.start "a!&b").next = (⟨.ident, "a", 1⟩, ⟨['!', '&', 'b'], 1, 1⟩) := by decide
      have bang : (Scanner.mk ['!', '&', 'b'] 1 1).next = (⟨.sign .bang, "!", 1⟩, ⟨['&', 'b'], 2, 1⟩) := by decide
      exact .inr (.inl (.later name (by simp) (.here bang (by simp) (by simp [Token.Open]))))
    | 1 | n + 3 => exact absurd rfl some
  have result := layoutIgnored "a!&b" partedFill fillers placed
  rw [text] at result
  exact ⟨text, fillers, placed, result⟩

end Baby
