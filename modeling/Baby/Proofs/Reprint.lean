import Baby.Proofs.Lexemes
import Baby.Proofs.Rereading

/-! Canonical texts read back. The text of a straight-line program is cut into the lexemes that it was
put together from, so it is always read, and to the same program unless an attribute is a call. -/
namespace Baby
open Baby.Tree

-- The equations of the printer are derived here, once for all the lemmas that open a text.
attribute [simp] Tree.render Tree.renderEach Tree.renderPairs

/-! Straight-line programs -/

def unaryOps : List Op := [.not, .sub]

def binaryOps : List Op :=
  [.add, .sub, .mul, .div, .gt, .lt, .ge, .le, .identical, .notIdentical, .equal, .notEqual, .and, .or]

def assignOps : List Op := [.assign, .assignRef, .assignVal]

namespace Tree

def isSimple : Tree → Bool
  | ident name _ => isName name
  | number n _ => 0 ≤ n && n < Nat.pow 2 63
  | string s _ => !s.toList.contains '"'
  | boolean .. | null _ | array .. | hash .. | call .. | index .. | dot .. => true
  | unary op .. => unaryOps.contains op
  | binary op .. => binaryOps.contains op
  | _ => false

def Simple : Tree → Prop := Every fun t => t.isSimple = true

def Step : Tree → Prop
  | define name op value _ | assign name op value _ => isName name = true ∧ op ∈ assignOps ∧ value.Simple
  | ret value _ => value.Simple
  | _ => False

def StraightLine : Tree → Prop
  | program body _ => ∃ steps last, body = steps ++ last ∧ (∀ t ∈ steps, t.Step) ∧
      (last = [] ∨ ∃ value line, last = [statement value line] ∧ value.Simple)
  | _ => False

end Tree

theorem operatorSpelled {ops : List Op} (op? : Sign → Option Op) {op : Op} (h : op ∈ ops)
    (all : ∀ op ∈ ops, ∃ s ∈ Sign.all, s.text = op.text ∧ op? s = some op) :
    ∃ s : Sign, s.text = op.text ∧ op? s = some op := by
  obtain ⟨s, _, spelled⟩ := all op h
  exact ⟨s, spelled⟩

/-! Neighbours -/

/- What follows an expression in a text goes on with neither a number nor a word. -/
def Closes (rest : String) : Prop := Rule.int.Apart rest.toList ∧ Rule.word.Apart rest.toList

def Opens (text : String) : Prop := ∀ c ∈ text.toList.head?, c ∉ [' ', '\t', '\r', '=', '&', '*']

theorem apartHead {r : Rule} {text : String} {c : Char} {cs : List Char} (rest : String)
    (head : text.toList = c :: cs) (stop : r.goesOn c = false) : r.Apart (text ++ rest).toList := by
  intro d first
  rw [String.toList_append, head] at first
  cases first
  exact stop

theorem closesSign (s : Sign) (rest : String) : Closes (s.text ++ rest) := by
  obtain ⟨c, cs, head, _, digit, _, part, _⟩ := Rule.signStarts s
  exact ⟨apartHead rest head digit, apartHead rest head part⟩

theorem closesBlank (rest : String) : Closes (" " ++ rest) :=
  ⟨apartHead rest rfl (by decide), apartHead rest rfl (by decide)⟩

theorem blankSign (s : Sign) (rest : String) : Rule.blanks.Apart (s.text ++ rest).toList := by
  obtain ⟨c, cs, head, _, _, _, _, gap⟩ := Rule.signStarts s
  exact apartHead rest head gap

theorem signTail {s : Sign} {c : Char} (h : (Rule.sign s).goesOn c = true) : c ∈ ['=', '&', '*'] := by
  have tails (s : Sign) : (s.text.toList.drop 1).all (['=', '&', '*'].contains ·) = true := by
    cases s <;> rfl
  obtain ⟨s', _, longer⟩ := List.any_eq_true.1 h
  obtain ⟨tail, same⟩ := List.isPrefixOf_iff_prefix.1 longer
  obtain ⟨d, ds, head, _⟩ := Rule.signStarts s
  have inside : c ∈ s'.text.toList.drop 1 := by
    rw [← same, head]
    simp
  exact List.contains_iff_mem.1 (List.all_eq_true.1 (tails s') c inside)

theorem signBlank (s : Sign) (rest : String) : (Rule.sign s).Apart (" " ++ rest).toList := by
  refine apartHead rest rfl (Bool.eq_false_iff.2 fun goes => ?_)
  exact absurd (signTail goes) (by decide)

def lone : List Sign :=
  [.minus, .dot, .comma, .semicolon, .colon, .lparen, .rparen, .lbrace, .rbrace, .lbracket, .rbracket]

theorem signLone {s : Sign} (h : s ∈ lone) (rest : String) : (Rule.sign s).Apart rest.toList := by
  have alone : ∀ s ∈ lone, ∀ s' ∈ Sign.all, s.text.toList <+: s'.text.toList → s' = s := by decide
  intro c _
  rw [Rule.goesOn, List.any_eq_false]
  intro s' known longer
  rw [List.isPrefixOf_iff_prefix] at longer
  cases alone s h s' known ((List.prefix_append _ _).trans longer)
  have length := longer.length_le
  rw [List.length_append, List.length_singleton] at length
  omega

theorem Opens.blank {text : String} (h : Opens text) : Rule.blanks.Apart text.toList := by
  intro c first
  have plain := h c first
  simp only [List.mem_cons, List.not_mem_nil, or_false, not_or] at plain
  simp [Rule.goesOn, Rule.isGap, plain]

theorem Opens.sign {text : String} (h : Opens text) (s : Sign) : (Rule.sign s).Apart text.toList :=
  fun c first => Bool.eq_false_iff.2 fun goes =>
    h c first (List.mem_append_right [' ', '\t', '\r'] (signTail goes))

theorem opensHead {text : String} {c : Char} {cs : List Char} (rest : String)
    (head : text.toList = c :: cs) (plain : c ∉ [' ', '\t', '\r', '=', '&', '*']) :
    Opens (text ++ rest) := by
  intro d first
  rw [String.toList_append, head] at first
  cases first
  exact plain

theorem opensWord {name : String} (rest : String) (h : Rule.word.Lexeme name.toList) :
    Opens (name ++ rest) := by
  generalize spelled : name.toList = l at h
  cases h with
  | word start parts =>
    have range := Rule.letterRange start
    refine opensHead rest spelled fun odd => ?_
    simp only [List.mem_cons, List.not_mem_nil, or_false] at odd
    rcases odd with rfl | rfl | rfl | rfl | rfl | rfl
    all_goals exact absurd range (by decide)

theorem opensNumber (n : Nat) (rest : String) : Opens (toString n ++ rest) := by
  obtain ⟨c, cs, spelled⟩ : ∃ c cs, (toString n).toList = c :: cs := by
    rw [decimal]
    exact List.exists_cons_of_ne_nil Nat.toDigits_ne_nil
  have digit : c.isDigit = true := digitsDecimal (n := n) (by rw [spelled]; simp)
  refine opensHead rest spelled fun odd => ?_
  simp only [List.mem_cons, List.not_mem_nil, or_false] at odd
  rcases odd with rfl | rfl | rfl | rfl | rfl | rfl
  all_goals cases digit

theorem numberText {n : Int} (h : 0 ≤ n) : ∃ m : Nat, n = m ∧ toString n = toString m := by
  obtain ⟨m, rfl⟩ := Int.eq_ofNat_of_zero_le h
  exact ⟨m, rfl, rfl⟩

theorem simpleOpens {t : Tree} (h : t.Simple) (rest : String) : Opens (t.render ++ rest) := by
  induction h generalizing rest with
  | @node t here parts ih =>
    cases t with
    | ident name line => exact opensWord rest (nameLexeme here).1
    | number n line =>
      simp only [isSimple, Bool.and_eq_true, decide_eq_true_eq] at here
      obtain ⟨m, rfl, same⟩ := numberText here.1
      rw [Tree.render, same]
      exact opensNumber m rest
    | boolean b line =>
      cases b with
      | true => exact opensWord rest (keywordLexeme .kTrue)
      | false => exact opensWord rest (keywordLexeme .kFalse)
    | null line => exact opensWord rest (keywordLexeme .kNull)
    | string | array | hash | unary | binary | index | dot =>
      simp only [Tree.render, String.append_assoc]
      exact opensHead _ rfl (by decide)
    | call f args line =>
      simp only [Tree.render, String.append_assoc]
      exact ih f (by simp [Tree.parts]) _
    | _ => cases here

/-! Expressions -/

def Prints (t : Tree) : Prop :=
  ∀ rest p, Closes rest → Lexes rest p → Lexes (t.render ++ rest) (Joined (Reads t) p)

theorem Lexes.one {text : String} {q : Token → Prop} {p : List Token → Prop} {t : Tree}
    (h : Lexes text (Led q p)) (reads : ∀ tok, q tok → Reads t [tok]) :
    Lexes text (Joined (Reads t) p) :=
  h.weaken fun _ ⟨tok, us, split, holds, rest⟩ => ⟨[tok], us, split, reads tok holds, rest⟩

theorem printsIdent {name : String} (h : isName name = true) (line : Nat) : Prints (.ident name line) := by
  intro rest p closes tail
  refine (Lexes.name h closes.2 tail).one fun tok ⟨kind, text⟩ => ?_
  exact .atom (.ident kind) (by rw [text]; simp) (by simp [kind]) rfl rfl

theorem printsNumber {n : Nat} (h : n < Nat.pow 2 63) (line : Nat) : Prints (.number n line) := by
  intro rest p closes tail
  refine (Lexes.number n closes.1 tail).one fun tok ⟨kind, text⟩ => ?_
  have value : Text.Digit.number tok.text.toList = n := by rw [text, numberDigits]
  refine .atom (.integer kind (by rw [value]; exact h)) (by rw [value]; simp) (fun _ => ?_) rfl rfl
  rw [text]
  exact Nat.le_trans (digitsShort h) (by decide)

theorem printsString {s : String} (h : '"' ∉ s.toList) (line : Nat) : Prints (.string s line) := by
  intro rest p closes tail
  refine (Lexes.quoted h tail).one fun tok ⟨kind, text⟩ => ?_
  exact .atom (.string kind) (by rw [text]; simp) (by simp [kind]) rfl rfl

theorem printsBoolean (b : Bool) (line : Nat) : Prints (.boolean b line) := by
  intro rest p closes tail
  cases b with
  | true =>
    refine (Lexes.keyword .kTrue closes.2 tail).one fun tok kind => ?_
    exact .atom (.yes kind) (by simp) (by simp [kind]) rfl rfl
  | false =>
    refine (Lexes.keyword .kFalse closes.2 tail).one fun tok kind => ?_
    exact .atom (.no kind) (by simp) (by simp [kind]) rfl rfl

theorem printsNull (line : Nat) : Prints (.null line) := by
  intro rest p closes tail
  refine (Lexes.keyword .kNull closes.2 tail).one fun tok kind => ?_
  exact .atom (.null kind) (by simp) (by simp [kind]) rfl rfl

theorem printsUnary {op : Op} {t : Tree} (known : op ∈ unaryOps) (simple : t.Simple) (h : Prints t)
    (line : Nat) : Prints (.unary op t line) := by
  intro rest p closes tail
  obtain ⟨s, spelled, operator⟩ := operatorSpelled Sign.unaryOp? known (by decide)
  simp only [Tree.render, String.append_assoc]
  rw [← spelled]
  refine (Lexes.sign .lparen (signLone (by decide) _) (.sign s ((simpleOpens simple _).sign s)
    (h _ _ (closesSign .rparen rest) (.sign .rparen (signLone (by decide) _) tail)))).weaken ?_
  rintro _ ⟨start, _, rfl, started, tok, _, rfl, kind, ts, _, rfl, reads, close, us, rfl, closed, holds⟩
  exact ⟨_, us, by simp, .unary started kind operator reads closed, holds⟩

theorem printsBinary {op : Op} {l r : Tree} (known : op ∈ binaryOps) (simple : r.Simple) (left : Prints l)
    (right : Prints r) (line : Nat) : Prints (.binary op l r line) := by
  intro rest p closes tail
  obtain ⟨s, spelled, operator⟩ := operatorSpelled Sign.binaryOp? known (by decide)
  simp only [Tree.render, String.append_assoc]
  rw [← spelled]
  refine (Lexes.sign .lparen (signLone (by decide) _) (left _ _ (closesBlank _) (.blank (blankSign s _)
    (.sign s (signBlank s _) (.blank (simpleOpens simple _).blank (right _ _ (closesSign .rparen rest)
      (.sign .rparen (signLone (by decide) _) tail))))))).weaken ?_
  rintro _ ⟨start, _, rfl, started, ts, _, rfl, first, tok, _, rfl, kind, us, _, rfl, second, close, vs,
    rfl, closed, holds⟩
  exact ⟨_, vs, by simp, .binary started first kind operator second closed, holds⟩

theorem printsIndex {t place : Tree} (target : Prints t) (inside : Prints place) (line : Nat) :
    Prints (.index t place line) := by
  intro rest p closes tail
  simp only [Tree.render, String.append_assoc]
  refine (Lexes.sign .lparen (signLone (by decide) _) (target _ _ (closesSign .lbracket _)
    (.sign .lbracket (signLone (by decide) _) (inside _ _ (closesSign .rbracket _)
      (.sign .rbracket (signLone (by decide) _) (.sign .rparen (signLone (by decide) _) tail)))))).weaken ?_
  rintro _ ⟨start, _, rfl, started, ts, _, rfl, first, tok, _, rfl, kind, us, _, rfl, second, stop, _, rfl,
    stopped, close, vs, rfl, closed, holds⟩
  exact ⟨_, vs, by simp, .index started first kind second stopped closed, holds⟩

theorem printsDot {t key : Tree} (target : Prints t) (name : Prints key) (line : Nat) :
    Prints (.dot t key line) := by
  intro rest p closes tail
  simp only [Tree.render, String.append_assoc]
  refine (Lexes.sign .lparen (signLone (by decide) _) (target _ _ (closesSign .dot _)
    (.sign .dot (signLone (by decide) _) (name _ _ (closesSign .rparen _)
      (.sign .rparen (signLone (by decide) _) tail))))).weaken ?_
  rintro _ ⟨start, _, rfl, started, ts, _, rfl, first, tok, _, rfl, kind, us, _, rfl, second, close, vs, rfl,
    closed, holds⟩
  exact ⟨_, vs, by simp, .dot started first kind second closed, holds⟩

/-! Lists -/

theorem commasMore (s t : String) (texts : List String) (rest : String) :
    commas (s :: t :: texts) ++ rest = s ++ ("," ++ (" " ++ (commas (t :: texts) ++ rest))) := by
  rw [commas, commas, String.intercalate_cons_cons, String.append_assoc, String.append_assoc]
  exact congrArg (s ++ ·) (@String.append_assoc "," " " _)

theorem commasOpens {s : String} (h : ∀ rest, Opens (s ++ rest)) (texts : List String) (rest : String) :
    Opens (commas (s :: texts) ++ rest) := by
  cases texts with
  | nil =>
    rw [commas, String.intercalate_singleton]
    exact h rest
  | cons t texts =>
    rw [commasMore]
    exact h _

theorem printsItems {e : Tree} {es : List Tree} (simple : ∀ t ∈ e :: es, t.Simple)
    (h : ∀ t ∈ e :: es, Prints t) {rest : String} {p : List Token → Prop} (closes : Closes rest)
    (tail : Lexes rest p) :
    Lexes (commas (renderEach (e :: es)) ++ rest) (Joined (ReadsItems (e :: es)) p) := by
  induction es generalizing e with
  | nil =>
    rw [List.forall_mem_singleton] at h
    rw [renderEach, renderEach, commas, String.intercalate_singleton]
    refine (h rest p closes tail).weaken ?_
    rintro _ ⟨ts, us, rfl, reads, holds⟩
    exact ⟨ts, us, rfl, readsLastItem reads, holds⟩
  | cons e' es ih =>
    rw [List.forall_mem_cons] at simple h
    have others := ih simple.2 h.2
    have opens := simpleOpens (simple.2 e' (by simp))
    rw [renderEach, renderEach, commasMore]
    rw [renderEach] at others
    refine (h.1 _ _ (closesSign .comma _) (.sign .comma (signLone (by decide) _)
      (.blank (commasOpens opens _ _).blank others))).weaken ?_
    rintro _ ⟨ts, _, rfl, reads, comma, _, rfl, separated, us, vs, rfl, rest, holds⟩
    exact ⟨_, vs, by simp, readsMoreItems reads separated rest, holds⟩

theorem printsList {es : List Tree} (simple : ∀ t ∈ es, t.Simple) (h : ∀ t ∈ es, Prints t) {close : Sign}
    (known : close = .rparen ∨ close = .rbracket) {rest : String} {p : List Token → Prop}
    (tail : Lexes rest p) :
    Lexes (commas (renderEach es) ++ (close.text ++ rest)) (Joined (ReadsList close es) p) := by
  have apart : (Rule.sign close).Apart rest.toList := signLone (by rcases known with rfl | rfl <;> decide) _
  have low : close.precedence ≤ .lowest := by rcases known with rfl | rfl <;> decide
  cases es with
  | nil =>
    rw [renderEach, commas, String.intercalate_nil, String.empty_append]
    refine (Lexes.sign close apart tail).weaken ?_
    rintro _ ⟨tok, us, rfl, closed, holds⟩
    exact ⟨[tok], us, rfl, readsNoItems closed, holds⟩
  | cons e es =>
    refine (printsItems simple h (closesSign close rest) (.sign close apart tail)).weaken ?_
    rintro _ ⟨ts, _, rfl, reads, tok, us, rfl, closed, holds⟩
    exact ⟨ts ++ [tok], us, by simp, readsSomeItems low reads closed, holds⟩

theorem printsArray {es : List Tree} (simple : ∀ t ∈ es, t.Simple) (h : ∀ t ∈ es, Prints t) (line : Nat) :
    Prints (.array es line) := by
  intro rest p closes tail
  simp only [Tree.render, String.append_assoc]
  refine (Lexes.sign .lbracket (signLone (by decide) _) (printsList simple h (.inr rfl) tail)).weaken ?_
  rintro _ ⟨start, _, rfl, started, ts, us, rfl, reads, holds⟩
  exact ⟨_, us, rfl, .array started reads, holds⟩

theorem printsCall {f : Tree} {args : List Tree} (callee : Prints f) (simple : ∀ t ∈ args, t.Simple)
    (h : ∀ t ∈ args, Prints t) (line : Nat) : Prints (.call f args line) := by
  intro rest p closes tail
  simp only [Tree.render, String.append_assoc]
  refine (callee _ _ (closesSign .lparen _) (.sign .lparen (signLone (by decide) _)
    (printsList simple h (.inl rfl) tail))).weaken ?_
  rintro _ ⟨ts, _, rfl, reads, tok, _, rfl, kind, us, vs, rfl, list, holds⟩
  exact ⟨_, vs, by simp, .call reads kind list, holds⟩

theorem printsPair {k v : Tree} (simple : v.Simple) (key : Prints k) (value : Prints v) {rest : String}
    {p : List Token → Prop} (closes : Closes rest) (tail : Lexes rest p) :
    Lexes (k.render ++ ": " ++ v.render ++ rest)
      (Joined (Reads k) (Led (fun tok => tok.kind = .sign .colon) (Joined (Reads v) p))) := by
  have spelled : ": " = ":" ++ " " := rfl
  simp only [spelled, String.append_assoc]
  exact key _ _ (closesSign .colon _) (.sign .colon (signLone (by decide) _)
    (.blank (simpleOpens simple _).blank (value _ _ closes tail)))

theorem printsPairs {ps : List (Tree × Tree)} (simple : ∀ q ∈ ps, q.1.Simple ∧ q.2.Simple)
    (h : ∀ q ∈ ps, Prints q.1 ∧ Prints q.2) {rest : String} {p : List Token → Prop}
    (tail : Lexes rest p) :
    Lexes (commas (renderPairs ps) ++ (Sign.rbrace.text ++ rest)) (Joined (ReadsPairs ps) p) := by
  have ended := Lexes.sign .rbrace (signLone (by decide) _) tail
  induction ps with
  | nil =>
    rw [renderPairs, commas, String.intercalate_nil, String.empty_append]
    refine ended.weaken ?_
    rintro _ ⟨tok, us, rfl, closed, holds⟩
    exact ⟨[tok], us, rfl, readsNoPairs closed, holds⟩
  | cons q ps ih =>
    obtain ⟨k, v⟩ := q
    rw [List.forall_mem_cons] at simple h
    cases ps with
    | nil =>
      rw [renderPairs, renderPairs, commas, String.intercalate_singleton]
      refine (printsPair simple.1.2 h.1.1 h.1.2 (closesSign .rbrace rest) ended).weaken ?_
      rintro _ ⟨ts, _, rfl, key, colon, _, rfl, separated, us, _, rfl, value, tok, vs, rfl, closed, holds⟩
      exact ⟨_, vs, by simp, readsLastPair key separated value closed, holds⟩
    | cons q' ps =>
      obtain ⟨k', v'⟩ := q'
      have others := ih simple.2 h.2
      have opens (rest : String) : Opens (k'.render ++ ": " ++ v'.render ++ rest) := by
        rw [String.append_assoc, String.append_assoc]
        exact simpleOpens (simple.2 (k', v') (by simp)).1 _
      rw [renderPairs, renderPairs, commasMore]
      rw [renderPairs] at others
      refine (printsPair simple.1.2 h.1.1 h.1.2 (closesSign .comma _) (.sign .comma (signLone (by decide) _)
        (.blank (commasOpens opens _ _).blank others))).weaken ?_
      rintro _ ⟨ts, _, rfl, key, colon, _, rfl, separated, us, _, rfl, value, comma, _, rfl, continued, vs, ws,
        rfl, rest, holds⟩
      exact ⟨_, ws, by simp, readsMorePairs key separated value continued rest, holds⟩

theorem printsHash {ps : List (Tree × Tree)} (simple : ∀ q ∈ ps, q.1.Simple ∧ q.2.Simple)
    (h : ∀ q ∈ ps, Prints q.1 ∧ Prints q.2) (line : Nat) : Prints (.hash ps line) := by
  intro rest p closes tail
  simp only [Tree.render, String.append_assoc]
  refine (Lexes.sign .lbrace (signLone (by decide) _) (printsPairs simple h tail)).weaken ?_
  rintro _ ⟨start, _, rfl, started, ts, us, rfl, reads, holds⟩
  exact ⟨_, us, rfl, .hash started reads, holds⟩

theorem simplePrints {t : Tree} (h : t.Simple) : Prints t := by
  induction h with
  | @node t here parts ih =>
    cases t with
    | ident name line => exact printsIdent here line
    | number n line =>
      simp only [isSimple, Bool.and_eq_true, decide_eq_true_eq] at here
      obtain ⟨m, rfl, _⟩ := numberText here.1
      exact printsNumber (Int.ofNat_lt.1 here.2) line
    | string s line => exact printsString (by simpa [isSimple] using here) line
    | boolean b line => exact printsBoolean b line
    | null line => exact printsNull line
    | array es line => exact printsArray parts ih line
    | hash ps line =>
      have inside {q : Tree × Tree} (member : q ∈ ps) :
          q.1 ∈ (Tree.hash ps line).parts ∧ q.2 ∈ (Tree.hash ps line).parts := by
        simp only [Tree.parts, List.mem_append]
        exact ⟨.inl (List.mem_map_of_mem member), .inr (List.mem_map_of_mem member)⟩
      exact printsHash (fun q member => ⟨parts _ (inside member).1, parts _ (inside member).2⟩)
        (fun q member => ⟨ih _ (inside member).1, ih _ (inside member).2⟩) line
    | unary op x line =>
      exact printsUnary (by simpa [isSimple] using here) (parts x (by simp [Tree.parts]))
        (ih x (by simp [Tree.parts])) line
    | binary op l r line =>
      exact printsBinary (by simpa [isSimple] using here) (parts r (by simp [Tree.parts]))
        (ih l (by simp [Tree.parts])) (ih r (by simp [Tree.parts])) line
    | call f args line =>
      simp only [Tree.parts, List.forall_mem_cons] at parts ih
      exact printsCall ih.1 parts.2 ih.2 line
    | index l r line => exact printsIndex (ih l (by simp [Tree.parts])) (ih r (by simp [Tree.parts])) line
    | dot l r line => exact printsDot (ih l (by simp [Tree.parts])) (ih r (by simp [Tree.parts])) line
    | _ => cases here

/-! Programs -/

theorem printsValue {t : Tree} (h : t.Simple) {rest : String} {p : List Token → Prop}
    (tail : Lexes rest p) :
    Lexes (" " ++ (t.render ++ (Sign.semicolon.text ++ rest)))
      (Joined (Reads t) (Led (fun tok => tok.kind = .sign .semicolon) p)) :=
  .blank (simpleOpens h _).blank (simplePrints h _ _ (closesSign .semicolon rest)
    (.sign .semicolon (signLone (by decide) _) tail))

theorem printsBinding {name : String} {op : Op} {value : Tree} (named : isName name = true)
    (known : op ∈ assignOps) (simple : value.Simple) {rest : String} {p : List Token → Prop}
    (tail : Lexes rest p) :
    Lexes (name ++ (" " ++ (op.text ++ (" " ++ (value.render ++ (Sign.semicolon.text ++ rest))))))
      (Led (fun tok => tok.kind = .ident ∧ tok.text = name)
        (Led (fun tok => tok.kind.assignOp? = some op)
          (Joined (Reads value) (Led (fun tok => tok.kind = .sign .semicolon) p)))) := by
  obtain ⟨s, spelled, operator⟩ := operatorSpelled Sign.assignOp? known (by decide)
  rw [← spelled]
  refine Lexes.name named (closesBlank _).2 (.blank (blankSign s _) ?_)
  refine (Lexes.sign s (signBlank s _) (printsValue simple tail)).weaken ?_
  rintro _ ⟨tok, us, rfl, kind, holds⟩
  exact ⟨tok, us, rfl, (congrArg Kind.assignOp? kind).trans operator, holds⟩

theorem stepPrints {t : Tree} (h : t.Step) {rest : String} {p : List Token → Prop} (tail : Lexes rest p) :
    Lexes (t.render ++ rest) (Joined (ReadsStatement t) p) := by
  cases t with
  | define name op value line =>
    obtain ⟨named, known, simple⟩ := h
    have spelled : "let " = Keyword.kLet.text ++ " " := rfl
    simp only [Tree.render, spelled, String.append_assoc]
    refine (Lexes.keyword .kLet (closesBlank _).2 (.blank (opensWord _ (nameLexeme named).1).blank
      (printsBinding named known simple tail))).weaken ?_
    rintro _ ⟨tok, _, rfl, kind, name, _, rfl, ⟨ident, rfl⟩, sign, _, rfl, operator, ts, _, rfl, reads, stop, us,
      rfl, stopped, holds⟩
    exact ⟨_, us, by simp, readsDefine kind ident operator reads stopped, holds⟩
  | assign name op value line =>
    obtain ⟨named, known, simple⟩ := h
    simp only [Tree.render, String.append_assoc]
    refine (printsBinding named known simple tail).weaken ?_
    rintro _ ⟨name, _, rfl, ⟨ident, rfl⟩, sign, _, rfl, operator, ts, _, rfl, reads, stop, us, rfl, stopped, holds⟩
    exact ⟨_, us, by simp, readsAssign ident operator reads stopped, holds⟩
  | ret value line =>
    have spelled : "return " = Keyword.kReturn.text ++ " " := rfl
    simp only [Tree.render, spelled, String.append_assoc]
    refine (Lexes.keyword .kReturn (closesBlank _).2 (printsValue h tail)).weaken ?_
    rintro _ ⟨tok, _, rfl, kind, ts, _, rfl, reads, stop, us, rfl, stopped, holds⟩
    exact ⟨_, us, by simp, readsReturn kind reads stopped, holds⟩
  | _ => cases h

theorem bodyPrints {steps last : List Tree} (each : ∀ t ∈ steps, t.Step)
    (final : last = [] ∨ ∃ value line, last = [statement value line] ∧ value.Simple) :
    Lexes (String.join (renderEach (steps ++ last)))
      (Joined (ReadsBody (steps ++ last)) fun ts => ∃ finish, ts = [finish] ∧ finish.kind = .eof) := by
  induction steps with
  | nil =>
    cases final with
    | inl none =>
      rw [none]
      exact Lexes.finish.weaken fun ts ended => ⟨[], ts, rfl, readsNoStatements, ended⟩
    | inr some =>
      obtain ⟨value, line, rfl, simple⟩ := some
      have closes : Closes "" := ⟨by simp [Rule.Apart], by simp [Rule.Apart]⟩
      rw [List.nil_append, renderEach, renderEach, String.join_cons, String.join_nil, Tree.render]
      refine (simplePrints simple "" _ closes .finish).weaken ?_
      rintro _ ⟨ts, us, rfl, reads, ended⟩
      exact ⟨ts, us, rfl, readsLastStatement reads, ended⟩
  | cons t steps ih =>
    rw [List.forall_mem_cons] at each
    rw [List.cons_append, renderEach, String.join_cons]
    refine (stepPrints each.1 (ih each.2)).weaken ?_
    rintro _ ⟨ts, _, rfl, reads, us, vs, rfl, rest, ended⟩
    exact ⟨ts ++ us, vs, by simp, readsMoreStatements reads rest, ended⟩

theorem reprintReadsBack {program : Tree} (h : program.StraightLine) :
    ∃ tree, parse program.render = .ok ⟨tree, []⟩ ∧
      (tree.unlined = program.unlined ↔ program.Every fun t => t.callKeyed = false) := by
  cases program with
  | program body line =>
    obtain ⟨steps, last, rfl, each, final⟩ := h
    obtain ⟨ts, _, tokens, reads, finish, rfl, ended⟩ := (bodyPrints each final).tokenized
    unfold parse
    rw [Tree.render, tokens]
    exact readsProgram reads ended line
  | _ => cases h

def calledAttribute : Tree :=
  .program [.define "x" .assignVal (.dot (.ident "a" 1) (.call (.ident "f" 1) [.number 7 1] 1) 1) 1,
    .statement (.unary .not (.string "=" 1) 1) 1] 1

theorem reprintReadsBackCalledAttribute :
    calledAttribute.render = "let x =* (a.f(7));(!\"=\")" ∧ calledAttribute.StraightLine ∧
      ∃ tree, parse calledAttribute.render = .ok ⟨tree, []⟩ ∧ tree.unlined ≠ calledAttribute.unlined := by
  have leaf {t : Tree} (here : t.isSimple = true) (none : t.parts = []) : t.Simple :=
    .node here (by simp [none])
  have call : (Tree.call (.ident "f" 1) [.number 7 1] 1).Simple :=
    .node rfl (List.forall_mem_cons.2 ⟨leaf rfl rfl, List.forall_mem_singleton.2 (leaf rfl rfl)⟩)
  have value : (Tree.dot (.ident "a" 1) (.call (.ident "f" 1) [.number 7 1] 1) 1).Simple :=
    .node rfl (List.forall_mem_cons.2 ⟨leaf rfl rfl, List.forall_mem_singleton.2 call⟩)
  have final : (Tree.unary .not (.string "=" 1) 1).Simple :=
    .node rfl (List.forall_mem_singleton.2 (leaf rfl rfl))
  have step : (Tree.define "x" .assignVal _ 1).Step := ⟨rfl, by decide, value⟩
  have straight : calledAttribute.StraightLine :=
    ⟨_, [_], rfl, List.forall_mem_singleton.2 step, .inr ⟨_, _, rfl, final⟩⟩
  obtain ⟨tree, parsed, same⟩ := reprintReadsBack straight
  refine ⟨by decide, straight, tree, parsed, fun equal => ?_⟩
  cases same.1 equal with
  | node _ parts =>
    cases parts _ (List.mem_cons_self ..) with
    | node _ parts =>
      cases parts _ (List.mem_cons_self ..) with
      | node here _ => cases here

end Baby
