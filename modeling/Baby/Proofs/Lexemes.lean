import Baby.Proofs.Scanning

/-! Lexemes set side by side. A lexeme is taken whole where what follows it does not go on with it, and a
text made of such lexemes is scanned to their tokens. -/
namespace Baby
open Text.Digit (isDigit)

namespace Rule

inductive Lexeme : Rule → List Char → Prop where
  | int {l} (some : l ≠ []) (digits : ∀ c ∈ l, isDigit c = true) : Lexeme .int l
  | string {l} (plain : '"' ∉ l) : Lexeme .string ('"' :: (l ++ ['"']))
  | word {c l} (start : isWordStart c = true) (parts : ∀ d ∈ l, isWordPart d = true) :
      Lexeme .word (c :: l)
  | sign (s) : Lexeme (.sign s) s.text.toList
  | blank : Lexeme .blanks [' ']

def goesOn : Rule → Char → Bool
  | int, c => isDigit c
  | word, c => isWordPart c
  | sign s, c => Sign.all.any fun s' => (s.text.toList ++ [c]).isPrefixOf s'.text.toList
  | blanks, c => isGap c
  | _, _ => false

def Apart (r : Rule) (rest : List Char) : Prop := ∀ c ∈ rest.head?, r.goesOn c = false

/-! The table before a lexeme -/

theorem takeWhileWhole {p : Char → Bool} {l rest : List Char} (all : ∀ c ∈ l, p c = true)
    (stop : ∀ c ∈ rest.head?, p c = false) : (l ++ rest).takeWhile p = l := by
  rw [List.takeWhile_append_of_pos all]
  cases rest with
  | nil => simp
  | cons c rest => simp [stop c rfl]

theorem letterRange {c : Char} (h : isWordStart c = true) : 65 ≤ c.toNat ∧ c.toNat ≤ 122 := by
  cases Bool.or_eq_true_iff.1 h with
  | inl letter =>
    cases Bool.or_eq_true_iff.1 letter with
    | inl upper =>
      obtain ⟨low, high⟩ := of_decide_eq_true upper
      exact ⟨UInt32.le_iff_toNat_le.1 low, Nat.le_trans (UInt32.le_iff_toNat_le.1 high) (by decide)⟩
    | inr lower =>
      obtain ⟨low, high⟩ := Bool.and_eq_true_iff.1 lower
      exact ⟨Nat.le_trans (by decide) (UInt32.le_iff_toNat_le.1 (of_decide_eq_true low)),
        UInt32.le_iff_toNat_le.1 (of_decide_eq_true high)⟩
  | inr underscore =>
    rw [of_decide_eq_true underscore]
    decide

theorem letterNoDigit {c : Char} (h : isWordStart c = true) : isDigit c = false := by
  have range := letterRange h
  have far : ∀ z ∈ Text.Digit.zeros, z = 48 ∨ 123 ≤ z := by decide
  have none : Text.Digit.value? c = none := by
    unfold Text.Digit.value?
    rw [Option.map_eq_none_iff, List.find?_eq_none]
    intro z known inside
    have place := far z known
    simp only [Bool.and_eq_true, decide_eq_true_eq] at inside
    omega
  rw [isDigit, none]
  rfl

theorem matchSign (s : Sign) (cs : List Char) :
    (sign s).match? cs = if s.text.toList.isPrefixOf cs then some s.text.toList else none := by
  rw [match?]

theorem signsFirst (cs : List Char) :
    (Sign.all.map sign).findSome? (fun r => (r.match? cs).map fun lexeme => (r, lexeme)) =
      (Sign.all.find? fun s => s.text.toList.isPrefixOf cs).map fun s => (sign s, s.text.toList) := by
  induction Sign.all with
  | nil => rfl
  | cons s signs ih =>
    rw [List.map_cons, List.findSome?_cons, List.find?_cons, ih, matchSign]
    cases s.text.toList.isPrefixOf cs <;> rfl

theorem firstSign {c : Char} {cs : List Char} (digit : isDigit c = false) (quote : c ≠ '"')
    (letter : isWordStart c = false) :
    first? (c :: cs) =
      ((Sign.all.find? fun s => s.text.toList.isPrefixOf (c :: cs)).map
        fun s => (sign s, s.text.toList)).or
      ([comment, newline, blanks, other].findSome? fun r =>
        (r.match? (c :: cs)).map fun lexeme => (r, lexeme)) := by
  unfold first? table
  rw [List.findSome?_append, List.findSome?_append, signsFirst]
  have none : [int, string, unterminated, word].findSome?
      (fun r => (r.match? (c :: cs)).map fun lexeme => (r, lexeme)) = none := by
    simp [match?, digit, letter, quote]
  rw [none, Option.none_or]

theorem signApart {s : Sign} {rest : List Char} (apart : (sign s).Apart rest) (s' : Sign) :
    s'.text.toList.isPrefixOf (s.text.toList ++ rest) = s'.text.toList.isPrefixOf s.text.toList := by
  rw [Bool.eq_iff_iff, List.isPrefixOf_iff_prefix, List.isPrefixOf_iff_prefix]
  refine ⟨fun within => ?_, fun within => within.trans (List.prefix_append _ _)⟩
  cases rest with
  | nil => simpa using within
  | cons c rest =>
    have known : s' ∈ Sign.all := by cases s' <;> decide
    have never : ¬ s.text.toList ++ [c] <+: s'.text.toList := by
      intro longer
      have goes : (sign s).goesOn c = true :=
        List.any_eq_true.2 ⟨s', known, List.isPrefixOf_iff_prefix.2 longer⟩
      simp [apart c rfl] at goes
    have begins : s.text.toList ++ [c] <+: s.text.toList ++ c :: rest := ⟨rest, by simp⟩
    cases List.prefix_or_prefix_of_prefix within begins with
    | inl inside =>
      cases List.prefix_concat_iff.1 inside with
      | inl whole => exact absurd (whole ▸ List.prefix_rfl) never
      | inr inside => exact inside
    | inr longer => exact absurd longer never

theorem signStarts (s : Sign) : ∃ c cs, s.text.toList = c :: cs ∧ c ≠ '"' ∧ isDigit c = false ∧
    isWordStart c = false ∧ isWordPart c = false ∧ isGap c = false := by
  cases s <;> exact ⟨_, _, rfl, by decide, by decide, by decide, by decide, by decide⟩

theorem signFirstOfAll (s : Sign) :
    Sign.all.find? (fun s' => s'.text.toList.isPrefixOf s.text.toList) = some s := by
  cases s <;> decide

theorem firstAt {r : Rule} {cs l : List Char} (above : List Rule) {below : List Rule}
    (split : table = above ++ r :: below) (none : ∀ q ∈ above, q.match? cs = none)
    (matched : r.match? cs = some l) : first? cs = some (r, l) := by
  have skipped : above.findSome? (fun q => (q.match? cs).map fun lexeme => (q, lexeme)) = .none := by
    rw [List.findSome?_eq_none_iff]
    intro q known
    rw [none q known]
    rfl
  rw [first?, split, List.findSome?_append, skipped, List.findSome?_cons, matched]
  rfl

theorem lexemeFirst {r : Rule} {l rest : List Char} (h : Lexeme r l) (apart : r.Apart rest) :
    first? (l ++ rest) = some (r, l) := by
  cases h with
  | int some digits =>
    have whole := takeWhileWhole digits apart
    refine firstAt [] rfl (by simp) ?_
    simp [match?, whole, some]
  | @string body plain =>
    have whole : (body ++ '"' :: rest).takeWhile (fun c => decide (c ≠ '"')) = body := by
      refine takeWhileWhole (fun c inside => ?_) (by simp)
      rw [decide_eq_true_eq]
      rintro rfl
      exact plain inside
    have number : int.match? ('"' :: (body ++ '"' :: rest)) = none := by
      have digit : isDigit '"' = false := by decide
      simp [match?, digit]
    rw [List.cons_append, List.append_assoc, List.singleton_append]
    refine firstAt [.int] rfl (List.forall_mem_singleton.2 number) ?_
    rw [match?, whole]
    simp
  | @word c l start parts =>
    have whole := takeWhileWhole parts apart
    have quote : c ≠ '"' := by
      rintro rfl
      exact absurd start (by decide)
    refine firstAt [.int, .string, .unterminated] rfl (fun q above => ?_) (by simp [match?, start, whole])
    simp only [List.mem_cons, List.not_mem_nil, or_false] at above
    rcases above with rfl | rfl | rfl
    · simp [match?, letterNoDigit start]
    · simp [match?, quote]
    · simp [match?, quote]
  | sign s =>
    obtain ⟨c, cs, spelled, quote, digit, letter, _⟩ := signStarts s
    have found := signFirstOfAll s
    simp only [← signApart apart] at found
    rw [spelled, List.cons_append, firstSign digit quote letter, ← List.cons_append, ← spelled, found]
    rfl
  | blank =>
    have whole : (' ' :: rest).takeWhile isGap = [' '] :=
      takeWhileWhole (List.forall_mem_singleton.2 rfl) apart
    have signs : Sign.all.find? (fun s => s.text.toList.isPrefixOf (' ' :: rest)) = none := by
      rw [List.find?_eq_none]
      intro s _
      cases s <;> simp [Sign.text]
    have comment : comment.match? (' ' :: rest) = none := by simp [match?]
    have newline : newline.match? (' ' :: rest) = none := by simp [match?]
    have matched : blanks.match? (' ' :: rest) = some [' '] := by
      rw [match?, whole]
      rfl
    rw [List.singleton_append, firstSign (by decide) (by decide) (by decide), signs, Option.map_none,
      Option.none_or, List.findSome?_cons, comment, List.findSome?_cons, newline, List.findSome?_cons, matched]
    rfl

end Rule

/-! Numbers -/

theorem asciiDigit {c : Char} (h : c.isDigit = true) : Text.Digit.value? c = some (c.toNat - 48) := by
  simp only [Char.isDigit, Bool.and_eq_true, decide_eq_true_eq, ge_iff_le, UInt32.le_iff_toNat_le] at h
  have low : 48 ≤ c.toNat := h.1
  have high : c.toNat < 48 + 10 := Nat.lt_succ_of_le h.2
  obtain ⟨others, zeros⟩ : ∃ others, Text.Digit.zeros = 48 :: others := ⟨_, rfl⟩
  rw [Text.Digit.value?, zeros, List.find?_cons]
  simp [low, high]

theorem decimal (n : Nat) : (toString n).toList = Nat.toDigits 10 n := Nat.toList_repr

theorem digitsDecimal {n : Nat} {c : Char} (h : c ∈ (toString n).toList) : c.isDigit = true := by
  rw [decimal] at h
  exact Nat.isDigit_of_mem_toDigits (by decide) (by decide) h

theorem numberDecimal {l : List Char} (h : ∀ c ∈ l, c.isDigit = true) (start : Nat) :
    l.foldl (fun n c => 10 * n + (Text.Digit.value? c).getD 0) start = Nat.ofDigitChars 10 l start := by
  induction l generalizing start with
  | nil => rfl
  | cons c l ih =>
    rw [List.forall_mem_cons] at h
    rw [List.foldl_cons, Nat.ofDigitChars_cons, ih h.2, asciiDigit h.1]
    rfl

theorem numberDigits (n : Nat) : Text.Digit.number (toString n).toList = n := by
  rw [Text.Digit.number, numberDecimal fun _ => digitsDecimal, decimal]
  exact Nat.ofDigitChars_ten_toDigits

theorem digitsShort {n : Nat} (h : n < Nat.pow 2 63) : (toString n).toList.length ≤ 19 := by
  rw [decimal,
    Nat.length_toDigits_le_iff (by decide) (by decide)]
  exact Nat.lt_trans h (by decide)

/-! Texts -/

/- Wherever the text stands, its tokens are as `p` says. -/
def Lexes (text : String) (p : List Token → Prop) : Prop :=
  ∀ s : Scanner, s.rest = text.toList → ∃ ts, Scans s ts ∧ p ts

def Led (q : Token → Prop) (p : List Token → Prop) (ts : List Token) : Prop :=
  ∃ tok us, ts = tok :: us ∧ q tok ∧ p us

def Joined (q p : List Token → Prop) (ts : List Token) : Prop :=
  ∃ us vs, ts = us ++ vs ∧ q us ∧ p vs

def isName (name : String) : Bool :=
  match name.toList with
  | c :: cs => Rule.isWordStart c && cs.all Rule.isWordPart && (Keyword.ofText? name).isNone
  | [] => false

theorem keywordLexeme (w : Keyword) : Rule.Lexeme .word w.text.toList := by
  cases w <;> exact .word rfl (List.all_eq_true.1 rfl)

theorem keywordKind (w : Keyword) : Rule.word.kind w.text.toList = .keyword w := by
  cases w <;> decide

theorem nameLexeme {name : String} (h : isName name = true) :
    Rule.Lexeme .word name.toList ∧ Rule.word.kind name.toList = .ident := by
  unfold isName at h
  split at h
  · next c cs spelled =>
    simp only [Bool.and_eq_true, List.all_eq_true, Option.isNone_iff_eq_none] at h
    refine ⟨spelled ▸ .word h.1.1 h.1.2, ?_⟩
    simp [Rule.kind, h.2]
  · cases h

namespace Lexes
variable {rest : String} {p q : List Token → Prop}

theorem weaken {text : String} (h : Lexes text p) (imp : ∀ ts, p ts → q ts) : Lexes text q := by
  intro s here
  obtain ⟨ts, scans, holds⟩ := h s here
  exact ⟨ts, scans, imp ts holds⟩

theorem tokenized {source : String} (h : Lexes source p) : p (tokenize source) := by
  obtain ⟨ts, scans, holds⟩ := h (Scanner.start source) rfl
  rw [scansOnce (tokenizeScans source) scans]
  exact holds

theorem finish : Lexes "" fun ts => ∃ finish, ts = [finish] ∧ finish.kind = .eof :=
  fun _ done => ⟨_, .finish done, _, rfl, rfl⟩

theorem skipped {s : Scanner} {lexeme : String} (here : s.rest = (lexeme ++ rest).toList) (r : Rule) :
    (s.skip r lexeme.toList).rest = rest.toList := by
  simp [Scanner.skip, here]

theorem token {r : Rule} {lexeme : String} (whole : r.Lexeme lexeme.toList)
    (apart : r.Apart rest.toList) (kept : r.isTrivia = false) (tail : Lexes rest p) :
    Lexes (lexeme ++ rest)
      (Led (fun tok => tok.kind = r.kind lexeme.toList ∧ tok.text = r.text lexeme.toList) p) := by
  intro s here
  obtain ⟨ts, scans, holds⟩ := tail _ (skipped here _)
  have found : Rule.first? s.rest = some (r, lexeme.toList) := by
    rw [here, String.toList_append, Rule.lexemeFirst whole apart]
  exact ⟨_, .token found kept scans, _, ts, rfl, ⟨rfl, rfl⟩, holds⟩

theorem blank (apart : Rule.blanks.Apart rest.toList) (tail : Lexes rest p) :
    Lexes (" " ++ rest) p := by
  intro s here
  obtain ⟨ts, scans, holds⟩ := tail _ (skipped here _)
  have found : Rule.first? s.rest = some (.blanks, " ".toList) := by
    rw [here, String.toList_append]
    exact Rule.lexemeFirst .blank apart
  exact ⟨ts, .trivia found rfl scans, holds⟩

theorem sign (s : Sign) (apart : (Rule.sign s).Apart rest.toList) (tail : Lexes rest p) :
    Lexes (s.text ++ rest) (Led (fun tok => tok.kind = .sign s) p) :=
  (token (.sign s) apart rfl tail).weaken fun _ ⟨tok, us, split, same, holds⟩ =>
    ⟨tok, us, split, same.1, holds⟩

theorem keyword (w : Keyword) (apart : Rule.word.Apart rest.toList) (tail : Lexes rest p) :
    Lexes (w.text ++ rest) (Led (fun tok => tok.kind = .keyword w) p) :=
  (token (keywordLexeme w) apart rfl tail).weaken fun _ ⟨tok, us, split, same, holds⟩ =>
    ⟨tok, us, split, same.1.trans (keywordKind w), holds⟩

theorem name {name : String} (named : isName name = true) (apart : Rule.word.Apart rest.toList)
    (tail : Lexes rest p) :
    Lexes (name ++ rest) (Led (fun tok => tok.kind = .ident ∧ tok.text = name) p) :=
  (token (nameLexeme named).1 apart rfl tail).weaken fun _ ⟨tok, us, split, same, holds⟩ =>
    ⟨tok, us, split, ⟨same.1.trans (nameLexeme named).2, same.2.trans String.ofList_toList⟩, holds⟩

theorem number (n : Nat) (apart : Rule.int.Apart rest.toList) (tail : Lexes rest p) :
    Lexes (toString n ++ rest) (Led (fun tok => tok.kind = .int ∧ tok.text = toString n) p) := by
  have whole : Rule.int.Lexeme (toString n).toList := by
    refine .int ?_ fun c inside => ?_
    · rw [decimal]
      exact Nat.toDigits_ne_nil
    · rw [isDigit, asciiDigit (digitsDecimal inside)]
      rfl
  exact (token whole apart rfl tail).weaken fun _ ⟨tok, us, split, same, holds⟩ =>
    ⟨tok, us, split, ⟨same.1, same.2.trans String.ofList_toList⟩, holds⟩

theorem quoted {s : String} (plain : '"' ∉ s.toList) (tail : Lexes rest p) :
    Lexes ("\"" ++ s ++ "\"" ++ rest) (Led (fun tok => tok.kind = .string ∧ tok.text = s) p) := by
  have spelled : ("\"" ++ s ++ "\"").toList = '"' :: (s.toList ++ ['"']) := by simp
  have whole : Rule.string.Lexeme ("\"" ++ s ++ "\"").toList := spelled ▸ .string plain
  have apart : Rule.string.Apart rest.toList := fun _ _ => rfl
  refine (token whole apart rfl tail).weaken fun _ ⟨tok, us, split, same, holds⟩ =>
    ⟨tok, us, split, ⟨same.1, same.2.trans ?_⟩, holds⟩
  simp [Rule.text]

end Lexes
end Baby
