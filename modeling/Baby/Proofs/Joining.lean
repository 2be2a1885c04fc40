import Baby.Proofs.Lexemes
import Baby.Proofs.Relining

/-! Two sources joined by a line break. If the first ends in a semicolon, its tokens and its statements stand
unchanged before those of the second, which are only further down. -/
namespace Baby
open Text.Digit (isDigit)

/-! Scanning -/

namespace Rule
variable {cs more : List Char}

theorem takeWhileBefore {p : Char → Bool} (stop : p '\n' = false) :
    (cs ++ '\n' :: more).takeWhile p = cs.takeWhile p := by
  induction cs with
  | nil => simp [stop]
  | cons c cs ih => simp [List.takeWhile_cons, ih]

theorem quotedBefore (closed : '"' ∈ cs) (rest : List Char) :
    (cs ++ rest).takeWhile (· ≠ '"') = cs.takeWhile (· ≠ '"') ∧
      (cs.takeWhile (· ≠ '"')).length < cs.length := by
  induction cs with
  | nil => cases closed
  | cons c cs ih =>
    by_cases quote : c = '"'
    · simp [quote]
    · obtain ⟨same, less⟩ := ih ((List.mem_cons.1 closed).resolve_left (Ne.symm quote))
      have goes : decide (c ≠ '"') = true := by simpa using quote
      simp only [List.cons_append, List.takeWhile_cons, goes, if_true, same]
      exact ⟨trivial, Nat.succ_lt_succ less⟩

theorem prefixBefore {l : List Char} (plain : '\n' ∉ l) :
    l.isPrefixOf (cs ++ '\n' :: more) = l.isPrefixOf cs := by
  induction l generalizing cs with
  | nil => simp
  | cons c l ih =>
    rw [List.mem_cons, not_or] at plain
    cases cs with
    | nil => simp [List.isPrefixOf, Ne.symm plain.1]
    | cons d cs => simp [List.isPrefixOf, ih plain.2]

theorem firstBefore (some : cs ≠ []) (whole : cs ≠ ['\r']) (closed : ∀ body, cs = '"' :: body → '"' ∈ body) :
    first? (cs ++ '\n' :: more) = first? cs := by
  have matched (r : Rule) : r.match? (cs ++ '\n' :: more) = r.match? cs := by
    cases cs with
    | nil => exact absurd rfl some
    | cons c cs =>
      rw [List.cons_append]
      cases r with
      | int =>
        have digits : (c :: cs ++ '\n' :: more).takeWhile isDigit = (c :: cs).takeWhile isDigit :=
          takeWhileBefore (by decide)
        simp only [match?]
        rw [← List.cons_append, digits]
      | string =>
        by_cases quote : c = '"'
        · subst quote
          obtain ⟨same, less⟩ := quotedBefore (closed cs rfl) ('\n' :: more)
          simp only [match?, same]
          rw [if_pos less, if_pos (Nat.lt_of_lt_of_le less (by simp))]
        · simp [match?, quote]
      | unterminated =>
        by_cases quote : c = '"'
        · subst quote
          simp only [match?, (quotedBefore (closed cs rfl) ('\n' :: more)).1]
        · simp [match?, quote]
      | word => simp [match?, takeWhileBefore (p := isWordPart) (by decide)]
      | sign s =>
        have plain : '\n' ∉ s.text.toList := by cases s <;> decide
        rw [matchSign, matchSign, ← List.cons_append, prefixBefore plain]
      | comment =>
        by_cases hash : c = '#'
        · subst hash
          rw [match?, match?, takeWhileBefore (by decide)]
        · simp [match?, hash]
      | newline =>
        by_cases here : c = '\n'
        · subst here
          simp [match?]
        · by_cases return' : c = '\r'
          · subst return'
            cases cs with
            | nil => exact absurd rfl whole
            | cons d cs =>
              by_cases next : d = '\n'
              · simp [match?, next]
              · simp [match?, next]
          · simp [match?, here, return']
      | blanks =>
        have gap : (c :: cs ++ '\n' :: more).takeWhile isGap = (c :: cs).takeWhile isGap :=
          takeWhileBefore (by decide)
        simp only [match?]
        rw [← List.cons_append, gap]
      | other => simp [match?]
  simp only [first?, matched]

theorem closingQuote {cs : List Char} (less : (cs.takeWhile (· ≠ '"')).length < cs.length) :
    cs.takeWhile (· ≠ '"') ++ ['"'] <+: cs := by
  induction cs with
  | nil => cases less
  | cons c cs ih =>
    by_cases quote : c = '"'
    · simp [quote]
    · have goes : decide (c ≠ '"') = true := by simpa using quote
      simp only [List.takeWhile_cons, goes, if_true, List.length_cons, Nat.add_lt_add_iff_right] at less ⊢
      exact List.cons_prefix_cons.2 ⟨rfl, ih less⟩

theorem matchBegins {r : Rule} {cs l : List Char} (h : r.match? cs = some l) : l <+: cs := by
  unfold match? at h
  split at h
  · dsimp only at h
    split at h <;> cases h
    exact List.takeWhile_prefix _
  · dsimp only at h
    split at h
    · next less =>
      cases h
      exact List.cons_prefix_cons.2 ⟨rfl, closingQuote less⟩
    · cases h
  · cases h
    exact List.cons_prefix_cons.2 ⟨rfl, List.takeWhile_prefix _⟩
  · split at h <;> cases h
    exact List.cons_prefix_cons.2 ⟨rfl, List.takeWhile_prefix _⟩
  · split at h
    · next begins =>
      cases h
      exact List.isPrefixOf_iff_prefix.1 begins
    · cases h
  · cases h
    exact List.cons_prefix_cons.2 ⟨rfl, List.takeWhile_prefix _⟩
  · cases h
    simp
  · cases h
    simp
  · dsimp only at h
    split at h <;> cases h
    exact List.takeWhile_prefix _
  · split at h <;> cases h
    simp
  · cases h

theorem firstBreak {l : List Char} (h : l = ['\n'] ∨ l = ['\r', '\n']) (more : List Char) :
    first? (l ++ more) = some (newline, l) := by
  have none (c : Char) (cs : List Char) (signs : ∀ s : Sign, s.text.toList.isPrefixOf (c :: cs) = false) :
      Sign.all.find? (fun s => s.text.toList.isPrefixOf (c :: cs)) = none := by
    simp [List.find?_eq_none, signs]
  rcases h with rfl | rfl
  · have signs (s : Sign) : s.text.toList.isPrefixOf ('\n' :: more) = false := by cases s <;> rfl
    rw [List.singleton_append, firstSign (by decide) (by decide) (by decide), none _ _ signs]
    simp [match?]
  · have signs (s : Sign) : s.text.toList.isPrefixOf ('\r' :: '\n' :: more) = false := by cases s <;> rfl
    rw [List.cons_append, List.singleton_append, firstSign (by decide) (by decide) (by decide), none _ _ signs]
    simp [match?]

theorem firstUnclosed {body : List Char} (never : '"' ∉ body) :
    first? ('"' :: body) = some (unterminated, '"' :: body) := by
  have whole : (body ++ []).takeWhile (fun c => decide (c ≠ '"')) = body := by
    refine takeWhileWhole (fun c member => ?_) (by simp)
    rw [decide_eq_true_eq]
    rintro rfl
    exact never member
  rw [List.append_nil] at whole
  refine firstAt [int, string] rfl (fun q above => ?_) (by rw [match?, whole])
  simp only [List.mem_cons, List.not_mem_nil, or_false] at above
  rcases above with rfl | rfl
  · have digit : isDigit '"' = false := by decide
    simp [match?, digit]
  · simp only [match?, whole]
    rw [if_neg (Nat.lt_irrefl _)]

/- What a new line behind the text can change: a carriage return at the end, and an open string. -/
theorem frontCases (some : cs ≠ []) (more : List Char) :
    (cs = ['\r'] ∧ first? cs = .some (blanks, ['\r'])) ∨ first? cs = .some (unterminated, cs) ∨
      first? (cs ++ '\n' :: more) = first? cs := by
  by_cases broken : cs = ['\r']
  · subst broken
    exact .inl ⟨rfl, by decide⟩
  · by_cases closed : ∀ body, cs = '"' :: body → '"' ∈ body
    · exact .inr (.inr (firstBefore some broken closed))
    · simp only [not_forall] at closed
      obtain ⟨body, rfl, never⟩ := closed
      exact .inr (.inl (firstUnclosed never))

end Rule

def Token.lower (k : Nat) (t : Token) : Token := { t with line := t.line + k }

theorem scansLower {s : Scanner} {ts : List Token} (h : Scans s ts) (position k : Nat) :
    Scans ⟨s.rest, position, s.line + k⟩ (ts.map (Token.lower k)) := by
  induction h generalizing position with
  | @finish s done => exact .finish done
  | @trivia s r l ts found skipped _ ih =>
    refine .trivia found skipped ?_
    have tail := ih (position + l.length)
    simp only [Scanner.skip, Nat.add_right_comm] at tail ⊢
    exact tail
  | @token s r l ts found kept _ ih =>
    refine .token found kept ?_
    have tail := ih (position + l.length)
    simp only [Scanner.skip, Nat.add_right_comm] at tail ⊢
    exact tail

theorem skipSplit {s : Scanner} {r : Rule} {l : List Char} (found : Rule.first? s.rest = some (r, l)) :
    s.rest = l ++ (s.skip r l).rest := by
  obtain ⟨rest, split⟩ := Rule.matchBegins (Rule.firstMatches found)
  simp [Scanner.skip, ← split]

theorem skipBefore {s : Scanner} {r : Rule} {l more : List Char} (split : s.rest = l ++ (s.skip r l).rest) :
    Scanner.skip ⟨s.rest ++ '\n' :: more, s.position, s.line⟩ r l =
      ⟨(s.skip r l).rest ++ '\n' :: more, (s.skip r l).position, (s.skip r l).line⟩ := by
  have fits : l.length ≤ s.rest.length := by simp [split]
  simp only [Scanner.skip, List.drop_append_of_le_length fits]

theorem skipLines {s : Scanner} {r : Rule} {l : List Char} (found : Rule.first? s.rest = some (r, l)) :
    (s.skip r l).line + (s.skip r l).rest.count '\n' = s.line + s.rest.count '\n' := by
  rw [congrArg (List.count '\n') (skipSplit found), List.count_append, Scanner.skipLine found]
  omega

theorem scansDone {s : Scanner} {ts : List Token} (h : Scans s ts) (done : s.rest = []) :
    ts = [⟨.eof, "", s.line⟩] :=
  scansOnce h (.finish done)

theorem scansJoin {s : Scanner} {ts us vs : List Token} {finish : Token} {more : List Char} (h : Scans s ts)
    (split : ts = us ++ [finish]) (sealed : ∀ t ∈ us.getLast?, t.kind = .sign .semicolon)
    (rest : ∀ position, Scans ⟨more, position, s.line + s.rest.count '\n' + 1⟩ vs) :
    Scans ⟨s.rest ++ '\n' :: more, s.position, s.line⟩ (us ++ vs) := by
  have last {us : List Token} {line : Nat} (split : [⟨.eof, "", line⟩] = us ++ [finish]) : us = [] := by
    simpa using congrArg List.length split
  induction h generalizing us with
  | @finish s done =>
    obtain rfl := last split
    rw [done] at rest ⊢
    exact .trivia (Rule.firstBreak (.inl rfl) more) rfl (rest (s.position + 1))
  | @trivia s r l ts found skipped tail ih =>
    have front := skipSplit found
    rcases Rule.frontCases (matchNotEmpty (Rule.firstMatches found)).2 more with
      ⟨broken, first⟩ | first | same
    · -- The carriage return and the new line are one line break.
      cases found.symm.trans first
      obtain rfl := last ((scansDone tail (by simp [Scanner.skip, broken])).symm.trans split)
      rw [broken] at rest ⊢
      exact .trivia (Rule.firstBreak (.inr rfl) more) rfl (rest (s.position + 2))
    · cases found.symm.trans first
      cases skipped
    · refine .trivia (same.trans found) skipped ?_
      rw [skipBefore front]
      refine ih split sealed ?_
      rw [skipLines found]
      exact rest
  | @token s r l ts found kept tail ih =>
    have front := skipSplit found
    obtain ⟨us, rfl⟩ : ∃ us', us = ⟨r.kind l, r.text l, s.line⟩ :: us' := by
      cases us with
      | nil =>
        obtain ⟨_, _, ended, _⟩ := scansEnd tail
        simp [ended] at split
      | cons u us => exact ⟨us, by rw [(List.cons.inj split).1]⟩
    have others : ts = us ++ [finish] := (List.cons.inj split).2
    rw [List.getLast?_cons] at sealed
    rcases Rule.frontCases (matchNotEmpty (Rule.firstMatches found)).2 more with
      ⟨_, first⟩ | first | same
    · cases found.symm.trans first
      cases kept
    · -- An open string takes the whole text, and its token would be the last one.
      cases found.symm.trans first
      obtain rfl := last ((scansDone tail (by simp [Scanner.skip])).symm.trans others)
      cases sealed _ rfl
    · refine .token (same.trans found) kept ?_
      rw [skipBefore front]
      refine ih others (fun t member => sealed t (by simp [Option.mem_def.1 member])) ?_
      rw [skipLines found]
      exact rest

theorem tokenizeJoin {first second : String} {ts : List Token} {finish : Token}
    (tokens : tokenize first = ts ++ [finish]) (sealed : ∀ t ∈ ts.getLast?, t.kind = .sign .semicolon) :
    ∃ k, tokenize (first ++ "\n" ++ second) = ts ++ (tokenize second).map (Token.lower k) := by
  have left := tokenizeScans first
  refine ⟨first.toList.count '\n' + 1, scansOnce (tokenizeScans _) ?_⟩
  have right (position : Nat) : Scans ⟨second.toList, position, 1 + first.toList.count '\n' + 1⟩
      ((tokenize second).map (Token.lower (first.toList.count '\n' + 1))) := by
    have lowered := scansLower (tokenizeScans second) position (first.toList.count '\n' + 1)
    rw [← Nat.add_assoc] at lowered
    exact lowered
  have joined := scansJoin left tokens sealed right
  have whole : (first ++ "\n" ++ second).toList = first.toList ++ '\n' :: second.toList := by simp
  unfold Scanner.start at joined ⊢
  rw [whole]
  exact joined

/-! Grammar -/

def Unsealed (ts : List Token) : Prop := ∃ us tok, ts = us ++ [tok] ∧ tok.kind ≠ .sign .semicolon

namespace Unsealed
variable {us : List Token}

theorem one {tok : Token} {k : Kind} (kind : tok.kind = k) (other : k ≠ .sign .semicolon) : Unsealed [tok] :=
  ⟨[], tok, rfl, kind ▸ other⟩

theorem after (h : Unsealed us) (ts : List Token) : Unsealed (ts ++ us) := by
  obtain ⟨vs, tok, rfl, other⟩ := h
  exact ⟨ts ++ vs, tok, (List.append_assoc ..).symm, other⟩

theorem behind (h : Unsealed us) (tok : Token) : Unsealed (tok :: us) := h.after [tok]

theorem absurd {p : Prop} (h : Unsealed us) (sealed : ∀ t ∈ us.getLast?, t.kind = .sign .semicolon) : p := by
  obtain ⟨vs, tok, rfl, other⟩ := h
  exact (other (sealed tok (by simp))).elim

end Unsealed

def Phrase.Open : Phrase → Prop
  | .list close _ => close ≠ .semicolon
  | .statement _ | .statements _ => False
  | _ => True

theorem derivesUnsealed {phrase : Phrase} {ts : List Token} {next : Kind} (h : Derives phrase ts next)
    (opens : phrase.Open) : Unsealed ts := by
  induction h with
  | expression _ _ ih | opened _ ih | lastItem _ ih | someParams _ _ ih => exact ih trivial
  | atom atom => cases atom with
    | ident kind | integer kind | string kind | yes kind | no kind | null kind => exact .one kind (by simp)
  | noItems closed => exact .one closed (by simpa [Phrase.Open] using opens)
  | someItems _ closed => exact (Unsealed.one closed (by simpa [Phrase.Open] using opens)).after _
  | noPairs closed | noParams closed => exact .one closed (by simp)
  | lastName _ closed => exact (Unsealed.one closed (by simp)).behind _
  | group _ _ closed | condition _ _ closed | block _ _ closed =>
    exact ((Unsealed.one closed (by simp)).after _).behind _
  | index _ _ _ _ closed | lastPair _ _ _ closed =>
    exact (((Unsealed.one closed (by simp)).after _).behind _).after _
  | unary _ _ _ ih | hash _ _ ih => exact (ih trivial).behind _
  | array _ _ ih => exact (ih (by simp [Phrase.Open])).behind _
  | moreNames _ _ _ ih => exact ((ih trivial).behind _).behind _
  | binary _ _ _ _ _ _ ih | dot _ _ _ _ _ ih | moreItems _ _ _ _ ih => exact ((ih trivial).behind _).after _
  | call _ _ _ _ _ ih => exact ((ih (by simp [Phrase.Open])).behind _).after _
  | cond _ _ _ _ ih | loop _ _ _ _ ih => exact ((ih trivial).after _).behind _
  | function _ _ _ _ _ ih => exact (((ih trivial).after _).behind _).behind _
  | condElse _ _ _ _ _ _ _ ih => exact ((((ih trivial).behind _).after _).after _).behind _
  | morePairs _ _ _ _ _ _ _ ih => exact ((((ih trivial).behind _).after _).behind _).after _
  | noStatements | someStatements | define | assign | returnNull | returnValue | bare => exact opens.elim

theorem statementSealed {t : Tree} {ts : List Token} {next : Kind} (h : Derives (.statement t) ts next)
    (sealed : ∀ t ∈ ts.getLast?, t.kind = .sign .semicolon) (next' : Kind) :
    Derives (.statement t) ts next' := by
  cases h with
  | define kind named operator value ends =>
    rcases ends with ⟨tok, semicolon, rfl⟩ | ⟨rfl, _⟩
    · exact .define kind named operator value (.inl ⟨tok, semicolon, rfl⟩)
    · rw [List.append_nil] at sealed
      exact ((((derivesUnsealed value trivial).behind _).behind _).behind _).absurd sealed
  | assign named operator value ends =>
    rcases ends with ⟨tok, semicolon, rfl⟩ | ⟨rfl, _⟩
    · exact .assign named operator value (.inl ⟨tok, semicolon, rfl⟩)
    · rw [List.append_nil] at sealed
      exact (((derivesUnsealed value trivial).behind _).behind _).absurd sealed
  | returnNull kind closed => exact .returnNull kind closed
  | returnValue kind value ends =>
    rcases ends with ⟨tok, semicolon, rfl⟩ | ⟨rfl, _⟩
    · exact .returnValue kind value (.inl ⟨tok, semicolon, rfl⟩)
    · rw [List.append_nil] at sealed
      exact ((derivesUnsealed value trivial).behind _).absurd sealed
  | bare value ends =>
    rcases ends with ⟨tok, semicolon, rfl⟩ | rfl
    · exact .bare value (.inl ⟨tok, semicolon, rfl⟩)
    · rw [List.append_nil] at sealed
      exact (derivesUnsealed value trivial).absurd sealed

theorem statementsJoin {body body' : List Tree} {ts us : List Token} {next next' : Kind}
    (h : Derives (.statements body) ts next) (sealed : ∀ t ∈ ts.getLast?, t.kind = .sign .semicolon)
    (rest : Derives (.statements body') us next') :
    Derives (.statements (body ++ body')) (ts ++ us) next' := by
  generalize phrase : Phrase.statements body = p at h
  induction h generalizing body with
  | noStatements =>
    cases phrase
    exact rest
  | @someStatements ts vs t body next first others _ ih =>
    cases phrase
    have tail : ∀ t ∈ vs.getLast?, t.kind = .sign .semicolon := by
      intro t member
      exact sealed t (by simp [List.getLast?_append, Option.mem_def.1 member])
    rw [List.append_assoc]
    refine .someStatements ?_ (ih tail rfl)
    cases vs with
    | nil =>
      rw [List.append_nil] at sealed
      exact statementSealed first sealed _
    | cons tok vs => exact first
  | _ => cases phrase

/-! Trees -/

theorem lowerLike (k : Nat) (ts : List Token) : List.Forall₂ Token.Like ts (ts.map (Token.lower k)) :=
  List.forall₂_map_right_iff.2 (List.forall₂_same.2 fun _ _ => ⟨rfl, fun _ => rfl⟩)

theorem parseJoin {first second : String} {body body' : List Tree} {line line' : Nat}
    (left : parse first = .ok ⟨.program body line, []⟩)
    (right : parse second = .ok ⟨.program body' line', []⟩)
    (sealed : ∀ t ∈ (tokenize first).dropLast.getLast?, t.kind = .sign .semicolon) :
    ∃ others line, parse (first ++ "\n" ++ second) = .ok ⟨.program (body ++ others) line, []⟩ ∧
      Tree.AlikeEach body' others := by
  obtain ⟨ts, finish, tokens, ended, proper⟩ := scansEnd (tokenizeScans first)
  obtain ⟨us, finish', tokens', ended', proper'⟩ := scansEnd (tokenizeScans second)
  unfold parse at left right ⊢
  rw [tokens, List.dropLast_concat] at sealed
  obtain ⟨k, joined⟩ := tokenizeJoin tokens sealed
  rw [tokens] at left
  rw [tokens'] at right
  rw [joined, tokens', List.map_append, ← List.append_assoc]
  -- The second source is read on its new lines, and stands behind the last semicolon of the first.
  have last : finish'.Like (finish'.lower k) := ⟨rfl, fun _ => rfl⟩
  obtain ⟨tree, lowered, same⟩ := parsedRelined (lowerLike k us) last right
  have proper₁ : ∀ t ∈ us.map (Token.lower k), t.kind ≠ .eof := by
    intro u there
    obtain ⟨t, inside, rfl⟩ := List.mem_map.1 there
    exact proper' t inside
  have ended₁ : (finish'.lower k).kind = .eof := ended'
  obtain ⟨⟨others, derived', rfl⟩, short'⟩ := (parsedClean proper₁ ended₁).1 lowered
  obtain ⟨⟨_, derived, built⟩, short⟩ := (parsedClean proper ended).1 left
  obtain ⟨rfl, _⟩ := Tree.program.inj built
  have whole := statementsJoin derived sealed derived'
  refine ⟨others, _, (parsedClean (List.forall_mem_append.2 ⟨proper, proper₁⟩) ended₁).2
    ⟨⟨_, whole, rfl⟩, by simp [short, short']⟩, ?_⟩
  simpa [Tree.Alike, Tree.AlikeEach] using same

end Baby
