import Mathlib.Computability.Language
import Baby.Proofs.WellFormed

/-! Maximal munch. The texts that a rule stands for are a language, said without the scanner: the rule itself takes
the longest of them that the text begins with. The table is ordered so that no rule above another ever takes
less, and so its first match is the longest match of all. -/
namespace Baby
open Text.Digit (isDigit)
open scoped Computability

/-! Languages -/

namespace Rule

def one (p : Char → Bool) : Language Char := {l | ∃ c, p c = true ∧ l = [c]}

def spelled (text : List Char) : Language Char := {l | l = text}

def language : Rule → Language Char
  | int => one isDigit * (one isDigit)∗
  | string => spelled ['"'] * (one (· ≠ '"'))∗ * spelled ['"']
  | unterminated => spelled ['"'] * (one (· ≠ '"'))∗
  | word => one isWordStart * (one isWordPart)∗
  | sign s => spelled s.text.toList
  | comment => spelled ['#'] * (one (· ≠ '\n'))∗
  | newline => (1 + spelled ['\r']) * spelled ['\n']
  | blanks => one isGap * (one isGap)∗
  | other => one (· ≠ '\n')

theorem memRun {p : Char → Bool} {l : List Char} : l ∈ (one p)∗ ↔ ∀ c ∈ l, p c = true := by
  constructor
  · rintro ⟨parts, rfl, each⟩ c inside
    obtain ⟨part, member, within⟩ := List.mem_flatten.1 inside
    obtain ⟨d, holds, rfl⟩ := each part member
    rw [List.mem_singleton.1 within]
    exact holds
  · intro holds
    refine ⟨l.map fun c => [c], (List.flatMap_singleton' l).symm, fun part member => ?_⟩
    obtain ⟨c, inside, rfl⟩ := List.mem_map.1 member
    exact ⟨c, holds c inside, rfl⟩

theorem memSome {p q : Char → Bool} {l : List Char} :
    l ∈ one p * (one q)∗ ↔ ∃ c cs, l = c :: cs ∧ p c = true ∧ ∀ d ∈ cs, q d = true := by
  constructor
  · rintro ⟨_, ⟨c, holds, rfl⟩, cs, run, rfl⟩
    exact ⟨c, cs, rfl, holds, memRun.1 run⟩
  · rintro ⟨c, cs, rfl, holds, run⟩
    exact ⟨[c], ⟨c, holds, rfl⟩, cs, memRun.2 run, rfl⟩

theorem memAfter {q : Char → Bool} {c : Char} {l : List Char} :
    l ∈ spelled [c] * (one q)∗ ↔ ∃ cs, l = c :: cs ∧ ∀ d ∈ cs, q d = true := by
  constructor
  · rintro ⟨_, rfl, cs, run, rfl⟩
    exact ⟨cs, rfl, memRun.1 run⟩
  · rintro ⟨cs, rfl, run⟩
    exact ⟨[c], rfl, cs, memRun.2 run, rfl⟩

theorem memBetween {q : Char → Bool} {c d : Char} {l : List Char} :
    l ∈ spelled [c] * (one q)∗ * spelled [d] ↔ ∃ cs, l = c :: (cs ++ [d]) ∧ ∀ e ∈ cs, q e = true := by
  constructor
  · rintro ⟨_, front, _, rfl, rfl⟩
    obtain ⟨cs, rfl, run⟩ := memAfter.1 front
    exact ⟨cs, rfl, run⟩
  · rintro ⟨cs, rfl, run⟩
    exact ⟨c :: cs, memAfter.2 ⟨cs, rfl, run⟩, [d], rfl, rfl⟩

theorem memLineEnd {l : List Char} : l ∈ newline.language ↔ l = ['\n'] ∨ l = ['\r', '\n'] := by
  constructor
  · rintro ⟨_, rfl | rfl, _, rfl, rfl⟩
    · exact .inl rfl
    · exact .inr rfl
  · rintro (rfl | rfl)
    · exact ⟨[], .inl rfl, ['\n'], rfl, rfl⟩
    · exact ⟨['\r'], .inr rfl, ['\n'], rfl, rfl⟩

/-! One rule -/

theorem takenHolds {p : Char → Bool} {cs : List Char} : ∀ c ∈ cs.takeWhile p, p c = true :=
  fun _ => List.mem_takeWhile_imp

theorem takenAll {p : Char → Bool} {cs l : List Char} (holds : ∀ c ∈ l, p c = true) (begins : l <+: cs) :
    l.length ≤ (cs.takeWhile p).length := by
  obtain ⟨rest, rfl⟩ := begins
  rw [List.takeWhile_append_of_pos holds, List.length_append]
  exact Nat.le_add_right _ _

theorem memTaken {p : Char → Bool} {cs : List Char} (some : cs.takeWhile p ≠ []) :
    cs.takeWhile p ∈ one p * (one p)∗ := by
  obtain ⟨c, rest, split⟩ := List.exists_cons_of_ne_nil some
  have holds : ∀ d ∈ c :: rest, p d = true := split ▸ takenHolds
  rw [List.forall_mem_cons] at holds
  exact memSome.2 ⟨c, rest, split, holds⟩

theorem matchNamed {r : Rule} {cs l : List Char} (matched : r.match? cs = some l) : l ∈ r.language := by
  cases r with
  | int | blanks =>
    simp only [match?] at matched
    split at matched
    · cases matched
    · next some =>
      cases matched
      exact memTaken (by simpa using some)
  | string =>
    obtain ⟨body, rfl, plain⟩ := stringMatch matched
    refine memBetween.2 ⟨body, rfl, fun c inside => ?_⟩
    rw [decide_eq_true_eq]
    exact fun same => plain (same ▸ inside)
  | unterminated =>
    cases cs with
    | nil => cases matched
    | cons c cs =>
      by_cases quote : c = '"'
      · subst quote
        cases matched
        exact memAfter.2 ⟨_, rfl, takenHolds⟩
      · simp [match?, quote] at matched
  | word =>
    obtain ⟨c, parts, rfl, start, rest⟩ := wordMatch matched
    exact memSome.2 ⟨c, parts, rfl, start, List.all_eq_true.1 rest⟩
  | sign s =>
    rw [matchSign] at matched
    split at matched <;> cases matched
    exact rfl
  | comment =>
    obtain ⟨line, rfl, rfl⟩ := commentMatch matched
    exact memAfter.2 ⟨_, rfl, takenHolds⟩
  | newline => exact memLineEnd.2 (newlineMatch matched)
  | other =>
    cases cs with
    | nil => cases matched
    | cons c cs =>
      simp only [match?] at matched
      split at matched
      · cases matched
      · next proper =>
        cases matched
        exact ⟨c, by simpa using proper, rfl⟩

theorem matchCovers {r : Rule} {cs m : List Char} (named : m ∈ r.language) (begins : m <+: cs) :
    ∃ l, r.match? cs = some l ∧ m.length ≤ l.length := by
  have run {p : Char → Bool} (named : m ∈ one p * (one p)∗) :
      m.length ≤ (cs.takeWhile p).length ∧ (cs.takeWhile p).isEmpty = false := by
    obtain ⟨c, rest, rfl, first, others⟩ := memSome.1 named
    have longer := takenAll (List.forall_mem_cons.2 ⟨first, others⟩) begins
    refine ⟨longer, ?_⟩
    cases taken : cs.takeWhile p with
    | nil => simp [taken] at longer
    | cons => rfl
  cases r with
  | int | blanks =>
    obtain ⟨longer, some⟩ := run named
    exact ⟨_, by simp only [match?, some]; rfl, longer⟩
  | string =>
    obtain ⟨body, rfl, plain⟩ := memBetween.1 named
    obtain ⟨rest, rfl⟩ := begins
    have taken : (body ++ '"' :: rest).takeWhile (fun c => decide (c ≠ '"')) = body :=
      takeWhileWhole plain (by simp)
    refine ⟨'"' :: (body ++ ['"']), ?_, Nat.le_refl _⟩
    simp only [List.cons_append, List.append_assoc, List.nil_append, match?, taken]
    simp
  | unterminated =>
    obtain ⟨body, rfl, plain⟩ := memAfter.1 named
    obtain ⟨rest, rfl⟩ := begins
    exact ⟨_, rfl, Nat.succ_le_succ (takenAll plain (List.prefix_append _ _))⟩
  | word =>
    obtain ⟨c, parts, rfl, start, others⟩ := memSome.1 named
    obtain ⟨rest, rfl⟩ := begins
    refine ⟨c :: (parts ++ rest).takeWhile isWordPart, ?_, ?_⟩
    · simp [match?, start]
    · exact Nat.succ_le_succ (takenAll others (List.prefix_append _ _))
  | sign s =>
    cases named
    exact ⟨_, by rw [matchSign, if_pos (List.isPrefixOf_iff_prefix.2 begins)], Nat.le_refl _⟩
  | comment =>
    obtain ⟨body, rfl, plain⟩ := memAfter.1 named
    obtain ⟨rest, rfl⟩ := begins
    exact ⟨_, rfl, Nat.succ_le_succ (takenAll plain (List.prefix_append _ _))⟩
  | newline =>
    obtain ⟨rest, rfl⟩ := begins
    rcases memLineEnd.1 named with rfl | rfl
    · exact ⟨['\n'], rfl, Nat.le_refl _⟩
    · exact ⟨['\r', '\n'], rfl, Nat.le_refl _⟩
  | other =>
    obtain ⟨c, proper, rfl⟩ := named
    obtain ⟨rest, rfl⟩ := begins
    have proper : c ≠ '\n' := of_decide_eq_true proper
    exact ⟨[c], by simp [match?, proper], Nat.le_refl _⟩

structure Longest (texts : Language Char) (cs l : List Char) : Prop where
  begins : l <+: cs
  named : l ∈ texts
  most : ∀ m ∈ texts, m <+: cs → m.length ≤ l.length

theorem Longest.unique {texts : Language Char} {cs l m : List Char} (h : Longest texts cs l)
    (k : Longest texts cs m) : l = m := by
  have length : l.length = m.length :=
    Nat.le_antisymm (k.most l h.named h.begins) (h.most m k.named k.begins)
  exact (List.prefix_of_prefix_length_le h.begins k.begins (Nat.le_of_eq length)).eq_of_length length

theorem matchLongest {r : Rule} {cs l : List Char} :
    r.match? cs = some l ↔ Longest r.language cs l := by
  have taken {l : List Char} (matched : r.match? cs = some l) : Longest r.language cs l := by
    refine ⟨matchBegins matched, matchNamed matched, fun m named begins => ?_⟩
    obtain ⟨l', matched', longer⟩ := matchCovers named begins
    cases matched.symm.trans matched'
    exact longer
  refine ⟨taken, fun h => ?_⟩
  obtain ⟨l', matched, _⟩ := matchCovers h.named h.begins
  rw [matched, h.unique (taken matched)]

/-! The table -/

inductive Front where
  | digit | quote | letter | hash | space | sign
  deriving DecidableEq

def Front.of (c : Char) : Front :=
  if isDigit c then .digit
  else if c = '"' then .quote
  else if isWordStart c then .letter
  else if c = '#' then .hash
  else if isGap c || c = '\n' then .space
  else .sign

def front? : Rule → Option Front
  | int => some .digit
  | string | unterminated => some .quote
  | word => some .letter
  | sign _ => some .sign
  | comment => some .hash
  | newline | blanks => some .space
  | other => none

theorem signFront (s : Sign) : s.text.toList.head?.map Front.of = some .sign := by
  cases s <;> decide

theorem gapFront {c : Char} (gap : isGap c = true) : Front.of c = .space := by
  rcases gapBlank gap with rfl | rfl | rfl <;> decide

theorem namedFront {r : Rule} {front : Front} {c : Char} {l : List Char} (known : r.front? = some front)
    (named : c :: l ∈ r.language) : Front.of c = front := by
  cases r with
  | other => cases known
  | int =>
    cases known
    obtain ⟨_, _, split, digit, _⟩ := memSome.1 named
    cases split
    simp [Front.of, digit]
  | string =>
    cases known
    obtain ⟨_, split, _⟩ := memBetween.1 named
    cases split
    decide
  | unterminated | comment =>
    cases known
    obtain ⟨_, split, _⟩ := memAfter.1 named
    cases split
    decide
  | word =>
    cases known
    obtain ⟨_, _, split, start, _⟩ := memSome.1 named
    cases split
    have quote : c ≠ '"' := by
      rintro rfl
      exact absurd start (by decide)
    simp [Front.of, letterNoDigit start, quote, start]
  | sign s =>
    cases known
    have front := signFront s
    rw [← show c :: l = s.text.toList from named] at front
    exact Option.some.inj front
  | newline =>
    cases known
    rcases memLineEnd.1 named with split | split <;> cases split <;> decide
  | blanks =>
    cases known
    obtain ⟨_, _, split, gap, _⟩ := memSome.1 named
    cases split
    exact gapFront gap

/- When the second rule never takes more than the first: it never matches where the first does, or its texts
there are no longer. -/
def yields : Rule → Rule → Bool
  | _, other => true
  | string, unterminated => true
  | newline, blanks => true
  | sign s, sign s' => !s.text.toList.isPrefixOf s'.text.toList
  | r, q => r.front?.isSome && q.front?.isSome && r.front? ≠ q.front?

theorem tableYields : table.Pairwise fun r q => r.yields q = true := by decide

theorem Longest.some {r : Rule} {cs l : List Char} (h : Longest r.language cs l) : l ≠ [] :=
  (matchNotEmpty (matchLongest.2 h)).1

theorem sameFront {r q : Rule} {cs l m : List Char} {front front' : Front} (taken : Longest r.language cs l)
    (other : Longest q.language cs m) (here : r.front? = some front) (there : q.front? = some front') :
    front = front' := by
  obtain ⟨c, l, rfl⟩ := List.exists_cons_of_ne_nil taken.some
  obtain ⟨d, m, rfl⟩ := List.exists_cons_of_ne_nil other.some
  obtain ⟨rest, rfl⟩ := taken.begins
  have same : d = c := (List.cons_prefix_cons.1 other.begins).1
  subst same
  exact (namedFront here taken.named).symm.trans (namedFront there other.named)

theorem frontFirst {r : Rule} {front : Front} {cs l : List Char} (above : List Rule) {below : List Rule}
    (split : table = above ++ r :: below) (known : r.front? = some front) (h : Longest r.language cs l)
    (apart : ∀ q ∈ above, q.front?.isSome ∧ (q.front? = some front → q.match? cs = none)) :
    first? cs = some (r, l) := by
  refine firstAt above split (fun q higher => ?_) (matchLongest.2 h)
  cases matched : q.match? cs with
  | none => rfl
  | some m =>
    obtain ⟨some, never⟩ := apart q higher
    obtain ⟨front', there⟩ := Option.isSome_iff_exists.1 some
    have same : front' = front := sameFront (matchLongest.1 matched) h there known
    cases (never (same ▸ there)).symm.trans matched

theorem quotedShorter {cs l m : List Char} (taken : Longest string.language cs l)
    (other : Longest unterminated.language cs m) : m.length ≤ l.length := by
  obtain ⟨body, rfl, plain⟩ := memBetween.1 taken.named
  obtain ⟨opened, rfl, inside⟩ := memAfter.1 other.named
  obtain ⟨rest, rfl⟩ := taken.begins
  have begins : opened <+: body ++ '"' :: rest := by simpa using other.begins
  have whole := takenAll inside begins
  rw [takeWhileWhole plain (by simp)] at whole
  simp only [List.length_cons, List.length_append, List.length_nil]
  omega

theorem blanksShorter {cs l m : List Char} (taken : Longest newline.language cs l)
    (other : Longest blanks.language cs m) : m.length ≤ l.length := by
  obtain ⟨c, gap, rfl, first, others⟩ := memSome.1 other.named
  have whole := takenAll (List.forall_mem_cons.2 ⟨first, others⟩) other.begins
  obtain ⟨rest, rfl⟩ := taken.begins
  rcases memLineEnd.1 taken.named with rfl | rfl
  · exact absurd whole (by simp [isGap])
  · exact Nat.le_trans whole (by simp [isGap])

theorem signShorter {s s' : Sign} {cs l m : List Char} (taken : Longest (sign s).language cs l)
    (other : Longest (sign s').language cs m)
    (apart : s.text.toList.isPrefixOf s'.text.toList = false) : m.length ≤ l.length := by
  have taken' : l = s.text.toList := taken.named
  have other' : m = s'.text.toList := other.named
  cases List.prefix_or_prefix_of_prefix taken.begins other.begins with
  | inl inside =>
    rw [taken', other', ← List.isPrefixOf_iff_prefix, apart] at inside
    cases inside
  | inr inside => exact inside.length_le

theorem yieldsShorter {r q : Rule} {cs l m : List Char} (h : r.yields q = true)
    (taken : Longest r.language cs l) (other : Longest q.language cs m) : m.length ≤ l.length := by
  unfold yields at h
  split at h
  · obtain ⟨c, _, rfl⟩ := other.named
    exact List.length_pos_iff.2 taken.some
  · exact quotedShorter taken other
  · exact blanksShorter taken other
  · exact signShorter taken other (by simpa using h)
  · simp only [Bool.and_eq_true, Option.isSome_iff_exists, decide_eq_true_eq] at h
    obtain ⟨⟨⟨front, here⟩, front', there⟩, apart⟩ := h
    rw [here, there, sameFront taken other here there] at apart
    exact absurd rfl apart

/-! Maximal munch -/

structure Munched (cs : List Char) (r : Rule) (l : List Char) : Prop where
  known : r ∈ table
  begins : l <+: cs
  named : l ∈ r.language
  longest : ∀ q ∈ table, ∀ m ∈ q.language, m <+: cs → m.length ≤ l.length
  earliest : ∀ q ∈ table, l ∈ q.language → table.idxOf r ≤ table.idxOf q

theorem Munched.unique {cs l m : List Char} {r q : Rule} (h : Munched cs r l) (k : Munched cs q m) :
    r = q ∧ l = m := by
  have length : l.length = m.length :=
    Nat.le_antisymm (k.longest r h.known l h.named h.begins) (h.longest q k.known m k.named k.begins)
  have same : l = m :=
    (List.prefix_of_prefix_length_le h.begins k.begins (Nat.le_of_eq length)).eq_of_length length
  subst same
  have place := Nat.le_antisymm (h.earliest q k.known k.named) (k.earliest r h.known h.named)
  exact ⟨(List.idxOf_inj h.known).1 place, rfl⟩

theorem firstMunched {cs l : List Char} {r : Rule} (found : first? cs = some (r, l)) : Munched cs r l := by
  obtain ⟨above, r', below, split, matched, none⟩ := List.findSome?_eq_some_iff.1 found
  obtain ⟨l', matched, same⟩ := Option.map_eq_some_iff.1 matched
  cases same
  have taken := matchLongest.1 matched
  -- No rule above has a text here, so what any rule has there is had by a rule from here on.
  have never {q : Rule} {m : List Char} (higher : q ∈ above) (named : m ∈ q.language) : ¬ m <+: cs := by
    intro begins
    obtain ⟨l', matched', _⟩ := matchCovers named begins
    cases (Option.map_eq_none_iff.1 (none q higher)).symm.trans matched'
  have order := tableYields
  rw [split, List.pairwise_append, List.pairwise_cons] at order
  refine ⟨by simp [split], taken.begins, taken.named, fun q known m named begins => ?_,
    fun q known named => ?_⟩
  · obtain ⟨l', matched', longer⟩ := matchCovers named begins
    rw [split, List.mem_append, List.mem_cons] at known
    rcases known with higher | rfl | lower
    · exact absurd begins (never higher named)
    · exact taken.most m named begins
    · exact Nat.le_trans longer (yieldsShorter (order.2.1.1 q lower) taken (matchLongest.1 matched'))
  · have higher : q ∉ above := fun higher => never higher named taken.begins
    have own : r ∉ above := fun higher => never higher taken.named taken.begins
    rw [split, List.idxOf_append_of_notMem own, List.idxOf_append_of_notMem higher, List.idxOf_cons_self]
    omega

theorem munchedFirst {cs l : List Char} {r : Rule} : Munched cs r l ↔ first? cs = some (r, l) := by
  refine ⟨fun h => ?_, firstMunched⟩
  obtain ⟨l', matched, _⟩ := matchCovers h.named h.begins
  obtain ⟨q, m, found⟩ := firstFound (matchNotEmpty matched).2
  obtain ⟨rfl, rfl⟩ := h.unique (firstMunched found)
  exact found

/-! Words -/

theorem keywordSpelled {text : String} {k : Keyword} (known : Keyword.ofText? text = some k) :
    text = k.text := by
  unfold Keyword.ofText? at known
  have spelled := List.find?_some known
  exact (of_decide_eq_true spelled).symm

theorem wordFirst {cs l : List Char} (h : Longest word.language cs l) : first? cs = some (word, l) := by
  have apart : ∀ q ∈ [int, string, unterminated], q.front?.isSome ∧ q.front? ≠ some .letter := by decide
  exact frontFirst [int, string, unterminated] rfl rfl h fun q above =>
    ⟨(apart q above).1, fun same => absurd same (apart q above).2⟩

theorem kindKeyword {r : Rule} {l : List Char} {k : Keyword} :
    r.kind l = .keyword k ↔ r = word ∧ String.ofList l = k.text := by
  constructor
  · intro kind
    cases r with
    | word =>
      unfold Rule.kind at kind
      cases known : Keyword.ofText? (String.ofList l) with
      | none => simp [known] at kind
      | some w =>
        have same : w = k := by simpa [known] using kind
        exact ⟨rfl, same ▸ keywordSpelled known⟩
    | _ => cases kind
  · rintro ⟨rfl, spelled⟩
    rw [← keywordKind k, ← spelled, String.toList_ofList]

theorem kindName {r : Rule} {l : List Char} :
    r.kind l = .ident ↔ r = word ∧ ∀ k : Keyword, String.ofList l ≠ k.text := by
  constructor
  · intro kind
    obtain ⟨rfl, unknown⟩ := kindIdent kind
    refine ⟨rfl, fun k spelled => ?_⟩
    cases kind.symm.trans (kindKeyword.2 ⟨rfl, spelled⟩)
  · rintro ⟨rfl, unknown⟩
    unfold Rule.kind
    cases known : Keyword.ofText? (String.ofList l) with
    | none => rfl
    | some w => exact absurd (keywordSpelled known) (unknown w)

end Rule

/-! Whole texts -/

inductive Munches : Scanner → List Token → Prop where
  | finish {s} (done : s.rest = []) : Munches s [⟨.eof, "", s.line⟩]
  | trivia {s r l ts} (munched : Rule.Munched s.rest r l) (skipped : r.isTrivia = true)
      (tail : Munches (s.skip r l) ts) : Munches s ts
  | token {s r l ts} (munched : Rule.Munched s.rest r l) (kept : r.isTrivia = false)
      (tail : Munches (s.skip r l) ts) : Munches s (⟨r.kind l, r.text l, s.line⟩ :: ts)

theorem munchesScans {s : Scanner} {ts : List Token} : Munches s ts ↔ Scans s ts := by
  constructor
  · intro h
    induction h with
    | finish done => exact .finish done
    | trivia munched skipped _ ih => exact .trivia (Rule.munchedFirst.1 munched) skipped ih
    | token munched kept _ ih => exact .token (Rule.munchedFirst.1 munched) kept ih
  · intro h
    induction h with
    | finish done => exact .finish done
    | trivia found skipped _ ih => exact .trivia (Rule.firstMunched found) skipped ih
    | token found kept _ ih => exact .token (Rule.firstMunched found) kept ih

/-- At every place of a source the first rule that matches takes the longest text that any rule of the table has
there, and it is the earliest rule that has this text. A word is a keyword just if the longest word at its place
is one. So the tokens of a source are the only ones that maximal munch gives. -/
theorem firstMatchIsLongest (source : String) :
    (∀ place < source.length, ∀ rest, rest = source.toList.drop place → ∃ r l,
      Rule.first? rest = some (r, l) ∧ (∀ q m, Rule.Munched rest q m ↔ q = r ∧ m = l) ∧
      (∀ k, r.kind l = .keyword k ↔ Rule.Longest Rule.word.language rest l ∧ String.ofList l = k.text) ∧
      (r.kind l = .ident ↔
        Rule.Longest Rule.word.language rest l ∧ ∀ k : Keyword, String.ofList l ≠ k.text)) ∧
    ∀ ts, Munches (Scanner.start source) ts ↔ ts = tokenize source := by
  refine ⟨fun place within rest here => ?_, fun ts => ?_⟩
  · have more : rest ≠ [] := by
      rw [here, ← List.length_pos_iff, List.length_drop, String.length_toList]
      omega
    obtain ⟨r, l, found⟩ := Rule.firstFound more
    have munched := Rule.firstMunched found
    have word : r = .word ↔ Rule.Longest Rule.word.language rest l := by
      constructor
      · rintro rfl
        exact Rule.matchLongest.1 (Rule.firstMatches found)
      · intro longest
        cases found.symm.trans (Rule.wordFirst longest)
        rfl
    refine ⟨r, l, found, fun q m => ⟨fun other => other.unique munched, ?_⟩, fun k => ?_, ?_⟩
    · rintro ⟨rfl, rfl⟩
      exact munched
    · rw [Rule.kindKeyword, word]
    · rw [Rule.kindName, word]
  · rw [munchesScans]
    constructor
    · intro scans
      exact scansOnce scans (tokenizeScans source)
    · rintro rfl
      exact tokenizeScans source

end Baby
