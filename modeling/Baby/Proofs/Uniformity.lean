import Baby.Proofs.Recovery

/-! Statements before semicolons. A statement without braces is read up to its own semicolon and not further,
whatever goes wrong in it, and what is read of it does not depend on what follows. This holds of every reader
that can be entered without a brace, also of one that fails and leaves the cursor on the semicolon. -/
namespace Baby

/- What may follow the semicolon of a statement here: another statement that starts with one of these, or the
end. None of them can go on with an expression or close a list. -/
def Kind.begins (k : Kind) : Bool := k = .keyword .kLet || k = .keyword .kReturn || k = .ident || k = .eof

def Kind.bounds (k : Kind) : Bool :=
  k = .sign .semicolon || k = .sign .lbrace || k = .sign .rbrace || k = .eof

def Unbroken (r : List Token) : Prop := ∀ t ∈ r, t.kind.bounds = false

theorem Unbroken.apart {r : List Token} {t : Token} {k : Kind} (h : Unbroken r) (member : t ∈ r)
    (bound : k.bounds = true) : t.kind ≠ k := by
  intro same
  rw [← same, h t member] at bound
  cases bound

theorem Unbroken.suffix {r r' : List Token} (h : Unbroken r) (suffix : r' <:+ r) : Unbroken r' :=
  fun t member => h t (suffix.subset member)

abbrev Semicolon := { t : Token // t.kind = .sign .semicolon }

structure Setting where
  rest : List Token
  finish : Token
  next : (rest.headD finish).kind.begins = true

def Setting.cursor (x : Setting) (semi : Semicolon) (r : List Token) (errors : List SyntaxError) : Cursor :=
  ⟨r ++ semi.1 :: x.rest, x.finish, errors⟩

namespace Parser

/- Entered on `r`, the reader does the same in every setting: it meets the same integer that is too long, or it
gives the same and leaves the same tokens before the semicolon. It also reports errors in all settings or in
none; which ones may depend on what follows. `clean` says that none was reported before. -/
def Uniform {α : Type} (semi : Semicolon) (clean : Prop) (p : Setting → Parser α) (r : List Token)
    (post : Prop → α → List Token → Prop) : Prop :=
  (∃ o, ∀ x errors, (p x).run (x.cursor semi r errors) = .error o) ∨
    ∃ a r' clean', r' <:+ r ∧ post clean' a r' ∧ ∀ x errors, ∃ es,
      (p x).run (x.cursor semi r errors) = .ok (a, x.cursor semi r' (errors ++ es)) ∧
        (clean' ↔ clean ∧ es = [])

section
variable {α β : Type} {semi : Semicolon} {clean : Prop} {r : List Token}

theorem peekSeen {kind : Kind} {t u : Token} {s : List Token} (same : u.kind = kind) (x : Setting)
    (errors : List SyntaxError) : (x.cursor semi (t :: u :: s) errors).peek.kind = kind := same

theorem peekUnseen {kind : Kind} (inner : kind ≠ .sign .semicolon) (apart : r = [] → kind.begins = false)
    (unseen : ∀ t u s, r = t :: u :: s → u.kind ≠ kind) (x : Setting) (errors : List SyntaxError) :
    (x.cursor semi r errors).peek.kind ≠ kind := by
  cases r with
  | nil =>
    -- The cursor is on the semicolon, so the next token is the first one of what follows.
    intro same
    have next := x.next
    rw [same.symm] at apart
    exact Bool.noConfusion (next.symm.trans (apart rfl))
  | cons t r =>
    cases r with
    | nil => exact fun same => inner (same.symm.trans semi.2)
    | cons u s => exact unseen t u s rfl

namespace Uniform
variable {p q : Setting → Parser α} {post : Prop → α → List Token → Prop}

theorem pure {a : α} (h : post clean a r) : Uniform semi clean (fun _ => Pure.pure a) r post := by
  refine .inr ⟨a, r, clean, List.suffix_rfl, h, fun x errors => ⟨[], ?_, by simp⟩⟩
  rw [List.append_nil]
  rfl

theorem under (h : Uniform semi True p r post) :
    Uniform semi clean p r fun clean' a r' => ∃ own, post own a r' ∧ (clean' ↔ clean ∧ own) := by
  cases h with
  | inl stopped => exact .inl stopped
  | inr ends =>
    obtain ⟨a, r', own, suffix, here, run⟩ := ends
    refine .inr ⟨a, r', clean ∧ own, suffix, ⟨own, here, Iff.rfl⟩, fun x errors => ?_⟩
    obtain ⟨es, run, told⟩ := run x errors
    exact ⟨es, run, by rw [told, true_and]⟩

theorem bind {mid : Prop → α → List Token → Prop} {f : Setting → α → Parser β}
    {goal : Prop → β → List Token → Prop} (first : Uniform semi clean p r mid)
    (rest : ∀ a r' clean', r' <:+ r → mid clean' a r' → Uniform semi clean' (fun x => f x a) r' goal) :
    Uniform semi clean (fun x => p x >>= f x) r goal := by
  cases first with
  | inl stopped =>
    obtain ⟨o, stopped⟩ := stopped
    refine .inl ⟨o, fun x errors => ?_⟩
    rw [StateT.run_bind, stopped]
    rfl
  | inr ends =>
    obtain ⟨a, r₁, clean₁, suffix, here, run⟩ := ends
    cases rest a r₁ clean₁ suffix here with
    | inl stopped =>
      obtain ⟨o, stopped⟩ := stopped
      refine .inl ⟨o, fun x errors => ?_⟩
      obtain ⟨es, run, _⟩ := run x errors
      exact (runBind run).trans (stopped x _)
    | inr ends =>
      obtain ⟨b, r₂, clean₂, suffix', here', run'⟩ := ends
      refine .inr ⟨b, r₂, clean₂, suffix'.trans suffix, here', fun x errors => ?_⟩
      obtain ⟨es, run, told⟩ := run x errors
      obtain ⟨es', run', told'⟩ := run' x (errors ++ es)
      refine ⟨es ++ es', ?_, by rw [told', told, List.append_eq_nil_iff, and_assoc]⟩
      rw [runBind run, run', List.append_assoc]

theorem step {r₁ : List Token} (suffix : r₁ <:+ r)
    (same : ∀ x errors, (p x).run (x.cursor semi r errors) = (q x).run (x.cursor semi r₁ errors))
    (h : Uniform semi clean q r₁ post) : Uniform semi clean p r post := by
  cases h with
  | inl stopped =>
    obtain ⟨o, stopped⟩ := stopped
    exact .inl ⟨o, fun x errors => (same x errors).trans (stopped x errors)⟩
  | inr ends =>
    obtain ⟨a, r₂, clean₂, suffix', here, run⟩ := ends
    refine .inr ⟨a, r₂, clean₂, suffix'.trans suffix, here, fun x errors => ?_⟩
    obtain ⟨es, run, told⟩ := run x errors
    exact ⟨es, (same x errors).trans run, told⟩

theorem told (error : Setting → SyntaxError)
    (same : ∀ x errors, (p x).run (x.cursor semi r errors) = (q x).run (x.cursor semi r (errors ++ [error x])))
    (h : Uniform semi False q r post) : Uniform semi clean p r post := by
  cases h with
  | inl stopped =>
    obtain ⟨o, stopped⟩ := stopped
    exact .inl ⟨o, fun x errors => (same x errors).trans (stopped x _)⟩
  | inr ends =>
    obtain ⟨a, r₂, clean₂, suffix', here, run⟩ := ends
    refine .inr ⟨a, r₂, clean₂, suffix', here, fun x errors => ?_⟩
    obtain ⟨es, run, told⟩ := run x (errors ++ [error x])
    refine ⟨[error x] ++ es, ?_, by simpa using told⟩
    rw [same, run, List.append_assoc]

theorem curr {f : Setting → Token → Parser α} (h : Uniform semi clean (fun x => f x (r.headD semi.1)) r post) :
    Uniform semi clean (fun x => Parser.curr >>= f x) r post := by
  refine step List.suffix_rfl (fun x errors => ?_) h
  cases r <;> rfl

theorem peek {f : Setting → Token → Parser α} {t : Token}
    (h : Uniform semi clean (fun x => f x (r.headD semi.1)) (t :: r) post) :
    Uniform semi clean (fun x => Parser.peek >>= f x) (t :: r) post := by
  refine step List.suffix_rfl (fun x errors => ?_) h
  cases r <;> rfl

theorem advance {f : Setting → Unit → Parser α} {t : Token} (h : Uniform semi clean (fun x => f x ()) r post) :
    Uniform semi clean (fun x => Parser.advance >>= f x) (t :: r) post :=
  step (List.suffix_cons t r) (fun _ _ => rfl) h

theorem remaining {f : Setting → Nat → Parser α}
    (h : Uniform semi clean (fun x => f x (r.length + (x.rest.length + 1))) r post) :
    Uniform semi clean (fun x => Parser.remaining >>= f x) r post := by
  refine step List.suffix_rfl (fun x errors => ?_) h
  rw [runRemaining]
  simp [Setting.cursor]

theorem report {f : Setting → Unit → Parser α} {complaint : Complaint} {line : Nat}
    (h : Uniform semi False (fun x => f x ()) r post) :
    Uniform semi clean (fun x => Parser.report complaint line >>= f x) r post :=
  told (fun _ => ⟨complaint, line⟩) (fun _ _ => rfl) h

theorem reportPeek {f : Setting → Unit → Parser α} {kind : Kind}
    (h : Uniform semi False (fun x => f x ()) r post) :
    Uniform semi clean (fun x => Parser.reportPeek kind >>= f x) r post := by
  rw [reportPeekFound]
  exact told (fun x => ⟨.expected kind (x.cursor semi r []).peek, (x.cursor semi r []).peek.line⟩) (fun _ _ => rfl) h

theorem synchronize {f : Setting → Unit → Parser α} (unbroken : Unbroken r)
    (h : Uniform semi clean (fun x => f x ()) [] post) :
    Uniform semi clean (fun x => Parser.synchronize >>= f x) r post := by
  refine step List.nil_suffix (fun x errors => ?_) h
  have skipped : (x.cursor semi r errors).synchronize = x.cursor semi [] errors := by
    have inside : ∀ t ∈ r, (t.kind ≠ .sign .semicolon && t.kind ≠ .eof) = true := by
      intro t member
      simp [unbroken.apart member (k := .sign .semicolon) rfl, unbroken.apart member (k := .eof) rfl]
    unfold Cursor.synchronize Setting.cursor
    rw [List.dropWhile_append_of_pos inside, List.dropWhile_cons_of_neg (by simp [semi.2])]
    rfl
  show (f x ()).run (x.cursor semi r errors).synchronize = _
  rw [skipped]

theorem ite {d : Prop} [Decidable d] (yes : d → Uniform semi clean p r post)
    (no : ¬ d → Uniform semi clean q r post) : Uniform semi clean (fun x => if d then p x else q x) r post := by
  by_cases holds : d
  · simpa only [if_pos holds] using yes holds
  · simpa only [if_neg holds] using no holds

theorem peekYes {kind : Kind} (seen : ∀ (x : Setting) errors, (x.cursor semi r errors).peek.kind = kind)
    (h : Uniform semi clean p r post) :
    Uniform semi clean (fun x => Parser.peekIs kind >>= fun seen => if seen = true then p x else q x) r post := by
  refine step List.suffix_rfl (fun x errors => ?_) h
  rw [runPeekIs, if_pos (by simpa using seen x errors)]

theorem peekNo {kind : Kind} (unseen : ∀ (x : Setting) errors, (x.cursor semi r errors).peek.kind ≠ kind)
    (h : Uniform semi clean q r post) :
    Uniform semi clean (fun x => Parser.peekIs kind >>= fun seen => if seen = true then p x else q x) r post := by
  refine step List.suffix_rfl (fun x errors => ?_) h
  rw [runPeekIs, if_neg (by simpa using unseen x errors)]

theorem peekEnd {t : Token} (unbroken : Unbroken (t :: r)) (yes : r = [] → Uniform semi clean p (t :: r) post)
    (no : Uniform semi clean q (t :: r) post) :
    Uniform semi clean (fun x => Parser.peekIs (.sign .semicolon) >>= fun seen => if seen = true then p x else q x)
      (t :: r) post := by
  cases r with
  | nil => exact peekYes (fun _ _ => semi.2) (yes rfl)
  | cons u s =>
    have inside : u.kind ≠ .sign .semicolon := unbroken.apart (by simp) rfl
    exact peekNo (fun _ _ => inside) no

theorem peekIs {kind : Kind} (inner : kind ≠ .sign .semicolon) (apart : r = [] → kind.begins = false)
    (yes : ∀ t u s, r = t :: u :: s → u.kind = kind → Uniform semi clean p (t :: u :: s) post)
    (no : Uniform semi clean q r post) :
    Uniform semi clean (fun x => Parser.peekIs kind >>= fun seen => if seen = true then p x else q x) r post := by
  by_cases seen : ∃ t u s, r = t :: u :: s ∧ u.kind = kind
  · obtain ⟨t, u, s, rfl, same⟩ := seen
    exact peekYes (peekSeen same) (yes t u s rfl same)
  · exact peekNo (peekUnseen inner apart fun t u s split same => seen ⟨t, u, s, split, same⟩) no

theorem expect {kind : Kind} (inner : kind ≠ .sign .semicolon) (apart : r = [] → kind.begins = false)
    (yes : ∀ t u s, r = t :: u :: s → u.kind = kind → Uniform semi clean p (u :: s) post)
    (no : Uniform semi False q r post) :
    Uniform semi clean (fun x => Parser.expect kind >>= fun seen => if seen = true then p x else q x) r post := by
  by_cases seen : ∃ t u s, r = t :: u :: s ∧ u.kind = kind
  · obtain ⟨t, u, s, rfl, same⟩ := seen
    refine step (List.suffix_cons t _) (fun x errors => ?_) (yes t u s rfl same)
    rw [runExpect (peekSeen same x errors)]
    rfl
  · have unseen : ∀ (x : Setting) errors, (x.cursor semi r errors).peek.kind ≠ kind :=
      peekUnseen inner apart fun t u s split same => seen ⟨t, u, s, split, same⟩
    refine told (fun x => ⟨.expected kind (x.cursor semi r []).peek, (x.cursor semi r []).peek.line⟩)
      (fun x errors => ?_) no
    rw [runLack (unseen x errors)]
    rfl

end Uniform

def Gives (place : Prop → List Token → Prop) (clean : Prop) (a : Option α) (r : List Token) : Prop :=
  (clean ↔ a.isSome = true) ∧ place clean r

abbrev Inside : Prop → Option α → List Token → Prop := Gives fun clean r => clean → r ≠ []

abbrev Sealed : Prop → Option α → List Token → Prop := Gives fun _ r => r = []

theorem Inside.failed (r : List Token) : Inside False (none : Option α) r := by simp [Gives]

theorem Inside.built (a : α) (t : Token) (r : List Token) : Inside True (some a) (t :: r) := by simp [Gives]

theorem Sealed.failed : Sealed False (none : Option α) [] := by simp [Gives]

namespace Uniform
variable {p : Setting → Parser (Option α)}

theorem map {place : Prop → List Token → Prop} (h : Uniform semi clean p r (Gives place)) (g : α → β) :
    Uniform semi clean (fun x => p x >>= fun a => Pure.pure (a.map g)) r (Gives place) := by
  refine h.bind fun a r' clean' _ gives => .pure ⟨?_, gives.2⟩
  rw [gives.1, Option.isSome_map]

theorem built (first : Uniform semi True p r Inside) {f : Setting → Option α → Parser β}
    {goal : Prop → β → List Token → Prop}
    (fail : ∀ r', r' <:+ r → Uniform semi False (fun x => f x none) r' goal)
    (rest : ∀ a t s, t :: s <:+ r → Uniform semi True (fun x => f x (some a)) (t :: s) goal) :
    Uniform semi True (fun x => p x >>= f x) r goal := by
  refine first.bind fun a r' clean' suffix inside => ?_
  cases a with
  | none =>
    have told : clean' = False := by simpa using inside.1
    subst told
    exact fail r' suffix
  | some a =>
    have well : clean' = True := by simpa using inside.1
    subst well
    cases r' with
    | nil => exact absurd rfl (inside.2 trivial)
    | cons t s => exact rest a t s suffix

end Uniform

def Nested (semi : Semicolon) (k : Nat) (expr : Setting → Reader) : Prop :=
  ∀ level r, Unbroken r → r.length < k → Uniform semi True (fun x => expr x level) r Inside

theorem boundsMore {n : Setting → Nat} {k : Nat} (enough : ∀ x, k + 1 ≤ n x) :
    ∃ m : Setting → Nat, (n = fun x => m x + 1) ∧ ∀ x, k ≤ m x := by
  have more (x : Setting) : n x = n x - 1 + 1 ∧ k ≤ n x - 1 := by
    have enough := enough x
    omega
  exact ⟨fun x => n x - 1, funext fun x => (more x).1, fun x => (more x).2⟩

variable {k : Nat} {expr : Setting → Reader}

/-! Lists -/

theorem itemsUniform (h : Nested semi k expr) (n : Setting → Nat) (m : Nat) {r : List Token}
    (unbroken : Unbroken r) (short : r.length < k) (less : r.length < m) (enough : ∀ x, m ≤ n x) :
    Uniform semi True (fun x => items (expr x) (n x)) r fun clean found r' =>
      (clean ↔ none ∉ found) ∧ (clean → r' ≠ []) := by
  induction m generalizing r n with
  | zero => omega
  | succ m ih =>
    obtain ⟨n, rfl, still⟩ := boundsMore enough
    unfold items
    refine (h .lowest r unbroken short).bind fun item r₁ clean₁ suffix inside => ?_
    refine .peekIs (by decide) (fun _ => by decide) (fun t u s split _ => .advance (.advance ?_)) ?_
    -- The items behind the comma are read even if this one failed.
    · subst split
      have shorter := suffix.length_le
      simp only [List.length_cons] at shorter
      have tail := ((List.suffix_cons u s).trans (List.suffix_cons t _)).trans suffix
      refine (ih n (unbroken.suffix tail) (by omega) (by omega) still).under.bind
        fun others r₂ clean₂ _ after => .pure ?_
      obtain ⟨own, ⟨fine, left⟩, both⟩ := after
      cases item with
      | none => simp [both, inside.1]
      | some e => simpa [both, inside.1, fine] using fun well => left (fine.2 well)
    · cases item with
      | none => exact .pure ⟨by simpa using inside.1, inside.2⟩
      | some e => exact .pure ⟨by simpa using inside.1, inside.2⟩

theorem expressionsUniform (h : Nested semi k expr) {close : Sign} (other : close ≠ .semicolon) {t : Token}
    {r : List Token} (unbroken : Unbroken (t :: r)) (short : r.length < k) :
    Uniform semi True (fun x => expressions (expr x) close) (t :: r) Inside := by
  have inner : Kind.sign close ≠ .sign .semicolon := fun same => other (Kind.sign.inj same)
  unfold expressions
  refine .peekIs inner (fun _ => rfl) (fun t u s _ _ => .advance (.pure (.built [] u s))) (.advance ?_)
  refine .remaining ?_
  have read := itemsUniform h (fun x => r.length + (x.rest.length + 1) + 1) (r.length + 1)
    (unbroken.suffix (List.suffix_cons t r)) short (Nat.lt_succ_self _) (fun x => by omega)
  refine read.bind fun found r₁ clean₁ _ fine => ?_
  refine .expect inner (fun _ => rfl) (fun t u s _ _ => .pure ⟨?_, by simp⟩) (.pure (.failed r₁))
  rw [fine.1]
  cases mapMCases found with
  | inl failed => simp [failed.1, failed.2]
  | inr built =>
    obtain ⟨es, rfl, same⟩ := built
    simp [same]

theorem parametersUniform (n : Setting → Nat) (m : Nat) (names : List String) {t : Token} {r : List Token}
    (less : r.length < m) (enough : ∀ x, m ≤ n x) :
    Uniform semi True (fun x => parameters (n x) names) (t :: r) Inside := by
  induction m generalizing t r n names with
  | zero => omega
  | succ m ih =>
    obtain ⟨n, rfl, still⟩ := boundsMore enough
    unfold parameters
    simp only [ifNot]
    refine .expect (by decide) (by simp) (fun _ u s split _ => .curr ?_) (.pure (.failed _))
    cases split
    refine .ite (fun _ => .report (.pure (.failed _))) fun _ => ?_
    refine .peekIs (by decide) (fun _ => rfl) (fun _ v s split _ => .advance ?_) ?_
    · cases split
      simp only [List.length_cons] at less
      exact ih n _ (by omega) still
    · exact .expect (by decide) (fun _ => rfl) (fun _ v s _ _ => .pure (.built _ v s)) (.pure (.failed _))

theorem parameterListUniform (t : Token) (r : List Token) :
    Uniform semi True (fun _ => parameterList) (t :: r) Inside := by
  unfold parameterList
  refine .peekIs (by decide) (fun _ => rfl) (fun t u s _ _ => .advance (.pure (.built [] u s))) (.remaining ?_)
  exact parametersUniform _ (r.length + 1) [] (Nat.lt_succ_self _) fun x => by simp

/-! Expressions -/

theorem conditionUniform (h : Nested semi k expr) {t : Token} {r : List Token} (unbroken : Unbroken (t :: r))
    (short : r.length < k) :
    Uniform semi True (fun x => condition (expr x)) (t :: r) fun clean test _ => ¬ clean ∧ test = none := by
  unfold condition
  simp only [ifNot]
  refine .expect (by decide) (fun _ => rfl) (fun _ u s split _ => .advance ?_) (.pure ⟨id, rfl⟩)
  cases split
  have inside : s <:+ t :: u :: s := (List.suffix_cons u s).trans (List.suffix_cons t _)
  simp only [List.length_cons] at short
  refine (h .lowest s (unbroken.suffix inside) (by omega)).built (fun r' _ => .pure ⟨id, rfl⟩)
    fun test t₁ s₁ suffix => ?_
  refine .expect (by decide) (fun _ => rfl) (fun _ u₁ s₁ split _ => ?_) (.pure ⟨id, rfl⟩)
  cases split
  refine .expect (by decide) (fun _ => rfl) (fun _ v s₂ split brace => ?_) (.pure ⟨id, rfl⟩)
  cases split
  have member : v ∈ t :: u :: s := (suffix.trans inside).subset (by simp)
  exact absurd brace (unbroken.apart member rfl)

theorem afterCondition (h : Nested semi k expr) {t : Token} {r : List Token} (unbroken : Unbroken (t :: r))
    (short : r.length < k) {f : Setting → Option Tree → Parser (Option Tree)}
    (stop : ∀ x, f x none = pure none) :
    Uniform semi True (fun x => condition (expr x) >>= f x) (t :: r) Inside := by
  refine (conditionUniform h unbroken short).bind fun test r₁ clean₁ _ failed => ?_
  obtain ⟨told, rfl⟩ := failed
  simp only [stop]
  exact .pure (by simp [Gives, told])

theorem functionUniform (line : Nat) {t : Token} {r : List Token} (unbroken : Unbroken (t :: r)) :
    Uniform semi True (fun x => function (expr x) line) (t :: r) Inside := by
  unfold function
  simp only [ifNot]
  refine .expect (by decide) (fun _ => rfl) (fun _ u s split _ => ?_) (.pure (.failed _))
  cases split
  refine (parameterListUniform u s).built (fun r' _ => .pure (.failed r')) fun params t₁ s₁ suffix => ?_
  refine .expect (by decide) (fun _ => rfl) (fun _ v s₂ split brace => ?_) (.pure (.failed _))
  cases split
  have member : v ∈ t :: u :: s := (suffix.trans (List.suffix_cons t _)).subset (by simp)
  exact absurd brace (unbroken.apart member rfl)

theorem integerUniform (t : Token) (r : List Token) :
    Uniform semi True (fun _ => integer t) (t :: r) Inside := by
  unfold integer
  dsimp only
  split
  · exact .inl ⟨_, fun _ _ => rfl⟩
  · split
    · exact .report (.pure (.failed _))
    · exact .pure (.built _ t r)

theorem openingUniform (h : Nested semi k expr) {t : Token} {r : List Token} (unbroken : Unbroken (t :: r))
    (short : r.length < k) {form : Opening} (opens : Forms.standardOpening? t.kind = some form) :
    Uniform semi True (fun x => opening (expr x) t form) (t :: r) Inside := by
  have kind := openingKind opens
  have after := unbroken.suffix (List.suffix_cons t r)
  cases form with
  | identifier => exact .pure (.built _ t r)
  | integer => exact integerUniform t r
  | string => exact .pure (.built _ t r)
  | boolean value => exact .pure (.built _ t r)
  | null => exact .pure (.built _ t r)
  | group =>
    unfold opening
    simp only [pureIf]
    refine .advance ((h .lowest r after short).bind fun inner r₁ clean₁ _ inside => ?_)
    refine .expect (by decide) (fun _ => rfl) (fun _ u s _ _ => .pure ?_) (.pure (.failed _))
    exact ⟨inside.1, by simp⟩
  | array => exact (expressionsUniform h (by decide) unbroken short).map _
  | hash => exact absurd kind (unbroken.apart List.mem_cons_self rfl)
  | unary =>
    obtain ⟨sign, op, kind, operator⟩ := kind
    simp only [openingUnary (show t.kind.unaryOp? = some op by rw [kind]; exact operator)]
    exact .advance ((h .unary r after short).map _)
  | conditional => exact afterCondition h unbroken short fun _ => rfl
  | loop => exact afterCondition h unbroken short fun _ => rfl
  | function => exact functionUniform _ unbroken

theorem continuationUniform (h : Nested semi k expr) (left : Tree) {t : Token} {r : List Token}
    (unbroken : Unbroken (t :: r)) (short : r.length < k) {form : Continuation}
    (continues : Forms.standardContinuation? t.kind = some form) :
    Uniform semi True (fun x => continuation (expr x) t left form) (t :: r) Inside := by
  have kind := continuationKind continues
  have after := unbroken.suffix (List.suffix_cons t r)
  cases form with
  | binary =>
    obtain ⟨sign, op, kind, operator⟩ := kind
    simp only [continuationBinary (show t.kind.binaryOp? = some op by rw [kind]; exact operator)]
    exact .advance ((h _ r after short).map _)
  | call => exact (expressionsUniform h (by decide) unbroken short).map _
  | index =>
    unfold continuation
    simp only [pureIf]
    refine .advance ((h .lowest r after short).built (fun r' _ => .pure (.failed r')) fun place t₁ s₁ _ => ?_)
    exact .expect (by decide) (fun _ => rfl) (fun _ u s _ _ => .pure (.built _ u s)) (.pure (.failed _))
  | dot => exact .advance ((h .dot r after short).map _)

theorem extendUniform (h : Nested semi k expr) (level : Precedence) (n : Setting → Nat) (m : Nat) (left : Tree)
    {t : Token} {r : List Token} (unbroken : Unbroken (t :: r)) (short : r.length ≤ k) (less : r.length < m)
    (enough : ∀ x, m ≤ n x) :
    Uniform semi True (fun x => extend .standard (expr x) level (n x) left) (t :: r) Inside := by
  induction m generalizing t r n left with
  | zero => omega
  | succ m ih =>
    obtain ⟨n, rfl, still⟩ := boundsMore enough
    unfold extend
    refine .peek ?_
    refine .ite (fun _ => .pure (.built _ t r)) fun goes => ?_
    cases r with
    | nil => exact absurd (by simp [semi.2]) goes
    | cons u s =>
      cases continues : Forms.standard.continuation? ((u :: s).headD semi.1).kind with
      | none => exact .pure (.built _ t _)
      | some form =>
        have after := unbroken.suffix (List.suffix_cons t _)
        simp only [List.length_cons] at short less
        have grown := continuationUniform h left after (by omega) continues
        refine .advance (grown.built (fun r' _ => .pure (.failed r')) fun left t₁ s₁ suffix => ?_)
        have shorter := suffix.length_le
        simp only [List.length_cons] at shorter
        exact ih n left (after.suffix suffix) (by omega) (by omega) still

theorem oneExpressionUniform (h : Nested semi k expr) :
    Nested semi (k + 1) fun x => oneExpression .standard (expr x) := by
  intro level r unbroken short
  unfold oneExpression
  refine .curr ?_
  cases opens : Forms.standard.opening? (r.headD semi.1).kind with
  | none => exact .report (.pure (.failed r))
  | some form =>
    cases r with
    | nil =>
      -- Nothing opens with a semicolon: there the reader fails and stays.
      rw [List.headD_nil, semi.2] at opens
      cases opens
    | cons t r =>
      simp only [List.length_cons] at short
      have opening := openingUniform h unbroken (by omega) opens
      refine opening.built (fun r' _ => .pure (.failed r')) fun left t₁ s₁ suffix => ?_
      have shorter := suffix.length_le
      simp only [List.length_cons] at shorter
      exact .remaining (extendUniform h level _ (s₁.length + 1) left (unbroken.suffix suffix) (by omega)
        (Nat.lt_succ_self _) fun x => by simp)

theorem expressionWithinUniform (n : Setting → Nat) (enough : ∀ x, k ≤ n x) :
    Nested semi k fun x => expressionWithin .standard (n x) := by
  induction k generalizing n with
  | zero => exact fun _ _ _ short => absurd short (Nat.not_lt_zero _)
  | succ k ih =>
    obtain ⟨n, rfl, still⟩ := boundsMore enough
    exact oneExpressionUniform (ih n still)

theorem expressionUniform (k : Nat) : Nested semi k fun _ => expression .standard := by
  intro level r unbroken _
  unfold expression
  exact .remaining (expressionWithinUniform _ (fun x => by omega) level r unbroken (Nat.lt_succ_self _))

/-! Statements -/

theorem endStatementUniform {t : Token} {r : List Token} (unbroken : Unbroken (t :: r)) :
    Uniform semi True (fun _ => endStatement) (t :: r) fun clean ended r' =>
      (clean ↔ ended = true) ∧ r' = [] := by
  unfold endStatement
  refine .peek ?_
  cases r with
  | nil => exact .ite (fun _ => .advance (.pure (by simp))) fun other => absurd semi.2 other
  | cons u s =>
    have apart {k : Kind} (bound : k.bounds = true) : u.kind ≠ k := unbroken.apart (by simp) bound
    refine .ite (fun ended => absurd ended (apart rfl)) fun _ => .ite (fun ended => ?_) fun _ => ?_
    · simp [apart (k := .sign .rbrace) rfl, apart (k := .eof) rfl] at ended
    · exact .reportPeek (.synchronize unbroken (.pure (by simp)))

theorem lastExpressionUniform (h : Nested semi k expr) {r : List Token} (unbroken : Unbroken r)
    (short : r.length < k) : Uniform semi True (fun x => lastExpression (expr x)) r Sealed := by
  unfold lastExpression
  refine (h .lowest r unbroken short).built
    (fun r' suffix => .synchronize (unbroken.suffix suffix) (.pure .failed)) fun value t s suffix => ?_
  refine (endStatementUniform (unbroken.suffix suffix)).bind fun ended r' clean' _ fine => .pure ⟨?_, fine.2⟩
  rw [fine.1]
  cases ended <;> simp

theorem bindingUniform (h : Nested semi k expr) (build : String → Op → Tree → Tree) {t : Token} {r : List Token}
    (unbroken : Unbroken (t :: r)) (short : r.length < k) :
    Uniform semi True (fun x => binding (expr x) build) (t :: r) Sealed := by
  unfold binding
  refine .curr (.peek ?_)
  cases operator : (r.headD semi.1).kind.assignOp? with
  | none => exact .reportPeek (.synchronize unbroken (.pure .failed))
  | some op =>
    cases r with
    | nil =>
      rw [List.headD_nil, semi.2] at operator
      cases operator
    | cons u s =>
      have inside : s <:+ t :: u :: s := (List.suffix_cons u s).trans (List.suffix_cons t _)
      simp only [List.length_cons] at short
      exact .advance (.advance ((lastExpressionUniform h (unbroken.suffix inside) (by omega)).map _))

theorem definitionUniform (h : Nested semi k expr) {t : Token} {r : List Token} (unbroken : Unbroken (t :: r))
    (short : r.length < k) : Uniform semi True (fun x => definition (expr x)) (t :: r) Sealed := by
  unfold definition
  refine .curr (.expect (by decide) (by simp) (fun _ u s split _ => ?_)
    (.synchronize unbroken (.pure .failed)))
  cases split
  simp only [List.length_cons] at short
  exact bindingUniform h _ (unbroken.suffix (List.suffix_cons t _)) (by omega)

theorem returningUniform (h : Nested semi k expr) {t : Token} {r : List Token} (unbroken : Unbroken (t :: r))
    (short : r.length < k) : Uniform semi True (fun x => returning (expr x)) (t :: r) Sealed := by
  unfold returning
  refine .curr (.peekEnd unbroken (fun last => .advance (.pure ⟨by simp, last⟩)) (.advance ?_))
  exact (lastExpressionUniform h (unbroken.suffix (List.suffix_cons t r)) short).map _

end

inductive Starts : List Token → Prop where
  | define {tok rest} (kind : tok.kind = .keyword .kLet) : Starts (tok :: rest)
  | ret {tok rest} (kind : tok.kind = .keyword .kReturn) : Starts (tok :: rest)
  | assign {name sign rest} (named : name.kind = .ident) (operator : sign.kind.assignOp?.isSome = true) :
      Starts (name :: sign :: rest)

theorem statementUniform (semi : Semicolon) {r : List Token} (unbroken : Unbroken r) (starts : Starts r) :
    Uniform semi True (fun _ => statement (expression .standard)) r Sealed := by
  have nested : Nested semi r.length fun _ => expression .standard := expressionUniform _
  unfold statement
  refine .curr ?_
  cases starts with
  | define kind =>
    rw [List.headD_cons, kind]
    exact definitionUniform nested unbroken (Nat.lt_succ_self _)
  | ret kind =>
    rw [List.headD_cons, kind]
    exact returningUniform nested unbroken (Nat.lt_succ_self _)
  | assign named operator =>
    rw [List.headD_cons, named]
    exact .peek (.ite (fun _ => bindingUniform nested _ unbroken (Nat.lt_succ_self _))
      fun other => absurd operator other)

theorem Starts.begins {r : List Token} (h : Starts r) :
    ∃ t rest, r = t :: rest ∧ t.kind.begins = true ∧ t.kind ≠ .eof := by
  cases h with
  | define kind => exact ⟨_, _, rfl, by simp [kind, Kind.begins], by simp [kind]⟩
  | ret kind => exact ⟨_, _, rfl, by simp [kind, Kind.begins], by simp [kind]⟩
  | assign named => exact ⟨_, _, rfl, by simp [named, Kind.begins], by simp [named]⟩

end Parser

end Baby
