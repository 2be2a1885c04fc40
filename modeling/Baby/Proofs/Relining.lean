import Mathlib.Data.List.Forall2
import Baby.Proofs.Rereading

/-! The reader and lines. Two token sequences that differ only in their lines are read alike: the same
constructs are built and as many errors are reported. The same holds when integers that are too long to
be read are replaced by others, as far as the first sequence is read at all; so what is read without an
error has no such integer in it. -/
namespace Baby

structure Token.Like (t u : Token) : Prop where
  kind : t.kind = u.kind
  text : (t.kind = .int → t.text.toList.length ≤ Oversize.limit) → t.text = u.text

namespace Tree

def Alike (t u : Tree) : Prop := t.unlined = u.unlined

def AlikeEach (ts us : List Tree) : Prop := unlinedEach ts = unlinedEach us

def AlikePairs (ps qs : List (Tree × Tree)) : Prop := unlinedPairs ps = unlinedPairs qs

end Tree

namespace Cursor

structure Like (c d : Cursor) : Prop where
  ahead : List.Forall₂ Token.Like c.ahead d.ahead
  finish : c.finish.Like d.finish
  errors : c.errors.length = d.errors.length

namespace Like
variable {c d : Cursor}

theorem headLike {l m : List Token} {finish finish' : Token} (ahead : List.Forall₂ Token.Like l m)
    (last : finish.Like finish') : (l.headD finish).Like (m.headD finish') := by
  cases ahead with
  | nil => exact last
  | cons first => exact first

theorem skipLike {l m : List Token} {p : Kind → Bool} (ahead : List.Forall₂ Token.Like l m) :
    List.Forall₂ Token.Like (l.dropWhile fun t => p t.kind) (m.dropWhile fun t => p t.kind) := by
  induction ahead with
  | nil => exact .nil
  | cons first rest ih =>
    rw [List.dropWhile_cons, List.dropWhile_cons, first.kind]
    split
    · exact ih
    · exact .cons first rest

theorem curr (h : c.Like d) : c.curr.Like d.curr := headLike h.ahead h.finish

theorem advance (h : c.Like d) : c.advance.Like d.advance :=
  ⟨List.forall₂_drop 1 h.ahead, h.finish, h.errors⟩

theorem peek (h : c.Like d) : c.peek.Like d.peek := h.advance.curr

theorem report (h : c.Like d) (e e' : SyntaxError) : (c.report e).Like (d.report e') :=
  ⟨h.ahead, h.finish, by simp [Cursor.report, h.errors]⟩

theorem synchronize (h : c.Like d) : c.synchronize.Like d.synchronize :=
  ⟨skipLike (p := fun k => k ≠ .sign .semicolon && k ≠ .eof) h.ahead, h.finish, h.errors⟩

end Like
end Cursor

namespace Parser

/- Whatever the first reader gives, the second gives the like. -/
def Tracks {α : Type} (R : α → α → Prop) (c d : Cursor) (p q : Parser α) : Prop :=
  ∀ a c₁, p.run c = .ok (a, c₁) → ∃ b d₁, q.run d = .ok (b, d₁) ∧ R a b ∧ c₁.Like d₁

namespace Tracks
variable {α β : Type} {R : α → α → Prop} {S : β → β → Prop} {c d : Cursor}

theorem pure {a b : α} (like : c.Like d) (same : R a b) : Tracks R c d (Pure.pure a) (Pure.pure b) := by
  intro _ _ run
  cases run
  exact ⟨b, d, rfl, same, like⟩

theorem bind {p q : Parser α} {f g : α → Parser β} (first : Tracks R c d p q)
    (rest : ∀ a b c₁ d₁, R a b → c₁.Like d₁ → Tracks S c₁ d₁ (f a) (g b)) :
    Tracks S c d (p >>= f) (q >>= g) := by
  intro a c₂ run
  rw [StateT.run_bind] at run
  cases left : p.run c with
  | error o =>
    rw [left] at run
    cases run
  | ok out =>
    obtain ⟨a', c₁⟩ := out
    rw [left] at run
    obtain ⟨b', d₁, right, same, like⟩ := first a' c₁ left
    obtain ⟨b, d₂, more, result, after⟩ := rest a' b' c₁ d₁ same like a c₂ run
    exact ⟨b, d₂, (runBind right).trans more, result, after⟩

theorem curr {f g : Token → Parser β} (h : Tracks S c d (f c.curr) (g d.curr)) :
    Tracks S c d (Parser.curr >>= f) (Parser.curr >>= g) := h

theorem peek {f g : Token → Parser β} (h : Tracks S c d (f c.peek) (g d.peek)) :
    Tracks S c d (Parser.peek >>= f) (Parser.peek >>= g) := h

theorem remaining {f g : Nat → Parser β} (like : c.Like d)
    (h : Tracks S c d (f c.ahead.length) (g c.ahead.length)) :
    Tracks S c d (Parser.remaining >>= f) (Parser.remaining >>= g) := by
  unfold Tracks
  rw [runRemaining, runRemaining, ← like.ahead.length_eq]
  exact h

theorem advance {f g : Unit → Parser β} (h : Tracks S c.advance d.advance (f ()) (g ())) :
    Tracks S c d (Parser.advance >>= f) (Parser.advance >>= g) := h

theorem synchronize {f g : Unit → Parser β} (h : Tracks S c.synchronize d.synchronize (f ()) (g ())) :
    Tracks S c d (Parser.synchronize >>= f) (Parser.synchronize >>= g) := h

theorem report {complaint complaint' : Complaint} {line line' : Nat} {f g : Unit → Parser β}
    (h : Tracks S (c.report ⟨complaint, line⟩) (d.report ⟨complaint', line'⟩) (f ()) (g ())) :
    Tracks S c d (Parser.report complaint line >>= f) (Parser.report complaint' line' >>= g) := h

theorem reportPeek {kind : Kind} {f g : Unit → Parser β} (like : c.Like d)
    (h : ∀ c₁ d₁, c₁.Like d₁ → Tracks S c₁ d₁ (f ()) (g ())) :
    Tracks S c d (Parser.reportPeek kind >>= f) (Parser.reportPeek kind >>= g) := by
  rw [reportPeekFound]
  exact h _ _ (like.report ⟨.expected kind c.peek, c.peek.line⟩ ⟨.expected kind d.peek, d.peek.line⟩)

theorem ite {b : Bool} {p p' q q' : Parser β} (yes : b = true → Tracks S c d p p')
    (no : b = false → Tracks S c d q q') :
    Tracks S c d (if b = true then p else q) (if b = true then p' else q') := by
  cases b with
  | true => exact yes rfl
  | false => exact no rfl

theorem peekIs {kind : Kind} {p p' q q' : Parser β} (like : c.Like d)
    (yes : c.peek.kind = kind → Tracks S c d p p') (no : Tracks S c d q q') :
    Tracks S c d (Parser.peekIs kind >>= fun b => if b = true then p else q)
      (Parser.peekIs kind >>= fun b => if b = true then p' else q') := by
  unfold Tracks
  rw [runPeekIs, runPeekIs, ← like.peek.kind]
  exact ite (fun same => yes (of_decide_eq_true same)) fun _ => no

theorem expect {kind : Kind} {p p' q q' : Parser β} (like : c.Like d)
    (yes : c.peek.kind = kind → Tracks S c.advance d.advance p p')
    (no : ∀ c₁ d₁, c₁.Like d₁ → Tracks S c₁ d₁ q q') :
    Tracks S c d (Parser.expect kind >>= fun b => if b = true then p else q)
      (Parser.expect kind >>= fun b => if b = true then p' else q') := by
  by_cases same : c.peek.kind = kind
  · unfold Tracks
    rw [runExpect same, runExpect (like.peek.kind.symm.trans same)]
    exact yes same
  · have missed {c : Cursor} (other : c.peek.kind ≠ kind) :
        (Parser.expect kind).run c = .ok (false, c.report ⟨.expected kind c.peek, c.peek.line⟩) := by
      simp [Parser.expect, Parser.peekIs, Parser.reportPeekFound, Parser.peek, Parser.report, other]
      rfl
    have other : d.peek.kind ≠ kind := like.peek.kind ▸ same
    unfold Tracks
    rw [runBind (missed same), runBind (missed other)]
    exact no _ _ (like.report _ _)

theorem map {p q : Parser α} {f g : α → β} (h : Tracks R c d p q) (same : ∀ a b, R a b → S (f a) (g b)) :
    Tracks S c d (p >>= fun a => Pure.pure (f a)) (q >>= fun b => Pure.pure (g b)) :=
  h.bind fun a b _ _ related like => .pure like (same a b related)

end Tracks

section
variable {expr : Reader} {c d : Cursor}

def TracksTrees (expr : Reader) : Prop :=
  ∀ level c d, c.Like d → Tracks (Option.Rel Tree.Alike) c d (expr level) (expr level)

/-! Lists -/

theorem itemsTrack (h : TracksTrees expr) (n : Nat) (like : c.Like d) :
    Tracks (List.Forall₂ (Option.Rel Tree.Alike)) c d (items expr n) (items expr n) := by
  induction n generalizing c d with
  | zero => exact .pure like .nil
  | succ n ih =>
    unfold items
    refine (h .lowest c d like).bind fun item item' c₁ d₁ same like => .peekIs like (fun _ => ?_)
      (.pure like (.cons same .nil))
    exact .advance (.advance ((ih like.advance.advance).map fun _ _ others => .cons same others))

theorem mapMAlike {xs ys : List (Option Tree)} (h : List.Forall₂ (Option.Rel Tree.Alike) xs ys) :
    Option.Rel Tree.AlikeEach (xs.mapM id) (ys.mapM id) := by
  induction h with
  | nil => exact .some rfl
  | @cons x y xs ys first _ ih =>
    rw [List.mapM_cons, List.mapM_cons]
    cases first with
    | none => exact .none
    | some same =>
      generalize xs.mapM id = ts at ih
      generalize ys.mapM id = us at ih
      cases ih with
      | none => exact .none
      | some others => exact .some (congrArg₂ List.cons same others)

theorem expressionsTrack (h : TracksTrees expr) (close : Sign) (like : c.Like d) :
    Tracks (Option.Rel Tree.AlikeEach) c d (expressions expr close) (expressions expr close) := by
  unfold expressions
  refine .peekIs like (fun _ => .advance (.pure like.advance (.some rfl))) (.advance
    (.remaining like.advance ((itemsTrack h _ like.advance).bind fun found found' c₁ d₁ same like => ?_)))
  exact .expect like (fun _ => .pure like.advance (mapMAlike same)) fun _ _ like => .pure like .none

theorem consAlike {k k' v v' : Tree} (key : k.Alike k') (value : v.Alike v')
    (ps qs : Option (List (Tree × Tree))) (rest : Option.Rel Tree.AlikePairs ps qs) :
    Option.Rel Tree.AlikePairs (ps.map ((k, v) :: ·)) (qs.map ((k', v') :: ·)) := by
  cases rest with
  | none => exact .none
  | some others => exact .some (congrArg₂ List.cons (congrArg₂ Prod.mk key value) others)

theorem pairsTrack (h : TracksTrees expr) (n : Nat) (like : c.Like d) :
    Tracks (Option.Rel Tree.AlikePairs) c d (pairs expr n) (pairs expr n) := by
  induction n generalizing c d with
  | zero => exact .pure like .none
  | succ n ih =>
    unfold pairs
    simp only [ifNot]
    refine .peekIs like (fun _ => .advance (.pure like.advance (.some rfl))) (.advance ?_)
    refine (h .lowest _ _ like.advance).bind fun key key' c₁ d₁ sameKey like =>
      .expect like (fun _ => .advance ?_) fun _ _ like => .pure like .none
    refine (h .lowest _ _ like.advance.advance).bind fun value value' c₂ d₂ sameValue like => ?_
    cases sameKey with
    | none => exact .pure like .none
    | some sameKey =>
    cases sameValue with
    | none => exact .pure like .none
    | some sameValue =>
      have cons := consAlike sameKey sameValue
      exact .peekIs like (fun _ => (ih like).map cons) (.expect like (fun _ => (ih like.advance).map cons)
        fun _ _ like => .pure like .none)

theorem parametersTrack (n : Nat) (names : List String) (like : c.Like d) :
    Tracks Eq c d (parameters n names) (parameters n names) := by
  induction n generalizing c d names with
  | zero => exact .pure like rfl
  | succ n ih =>
    unfold parameters
    simp only [ifNot]
    refine .expect like (fun kind => .curr ?_) fun _ _ like => .pure like rfl
    have like := like.advance
    have text : c.advance.curr.text = d.advance.curr.text := like.curr.text (by simp [kind])
    rw [text]
    split
    · exact .report (.pure (like.report _ _) rfl)
    · exact .peekIs like (fun _ => .advance (ih _ like.advance)) (.expect like
        (fun _ => .pure like.advance rfl) fun _ _ like => .pure like rfl)

theorem parameterListTrack (like : c.Like d) : Tracks Eq c d parameterList parameterList :=
  .peekIs like (fun _ => .advance (.pure like.advance rfl)) (.remaining like (parametersTrack _ _ like))

/-! Statements -/

theorem endStatementTrack (like : c.Like d) : Tracks Eq c d endStatement endStatement := by
  unfold endStatement
  refine .peek ?_
  rw [like.peek.kind]
  split
  · exact .advance (.pure like.advance rfl)
  · refine .ite (fun _ => .pure like rfl) fun _ => .reportPeek like fun _ _ like => ?_
    exact .synchronize (.pure like.synchronize rfl)

theorem lastExpressionTrack (h : TracksTrees expr) (like : c.Like d) :
    Tracks (Option.Rel Tree.Alike) c d (lastExpression expr) (lastExpression expr) := by
  refine (h .lowest c d like).bind fun value value' c₁ d₁ same like => ?_
  cases same with
  | none => exact .synchronize (.pure like.synchronize .none)
  | some same =>
    refine (endStatementTrack like).map fun ended ended' both => ?_
    rw [← both]
    split
    · exact .some same
    · exact .none

theorem mapAlike {build build' : Tree → Tree} (same : ∀ t u, t.Alike u → (build t).Alike (build' u))
    (r r' : Option Tree) (h : Option.Rel Tree.Alike r r') :
    Option.Rel Tree.Alike (r.map build) (r'.map build') := by
  cases h with
  | none => exact .none
  | some related => exact .some (same _ _ related)

theorem bindingTrack (h : TracksTrees expr) {build build' : String → Op → Tree → Tree}
    (same : ∀ name op t u, t.Alike u → (build name op t).Alike (build' name op u)) (like : c.Like d)
    (named : c.curr.kind = .ident) :
    Tracks (Option.Rel Tree.Alike) c d (binding expr build) (binding expr build') := by
  unfold binding
  refine .curr (.peek ?_)
  rw [like.peek.kind, like.curr.text (by simp [named])]
  split
  · exact .reportPeek like fun _ _ like => .synchronize (.pure like.synchronize .none)
  · exact .advance (.advance ((lastExpressionTrack h like.advance.advance).map (mapAlike (same _ _))))

theorem definitionTrack (h : TracksTrees expr) (like : c.Like d) :
    Tracks (Option.Rel Tree.Alike) c d (definition expr) (definition expr) := by
  refine .curr (.expect like (fun named => ?_) fun _ _ like => .synchronize (.pure like.synchronize .none))
  refine bindingTrack h (fun name op t u same => ?_) like.advance named
  simpa [Tree.Alike] using same

theorem returningTrack (h : TracksTrees expr) (like : c.Like d) :
    Tracks (Option.Rel Tree.Alike) c d (returning expr) (returning expr) := by
  refine .curr (.peekIs like (fun _ => .advance (.pure like.advance (.some ?_))) (.advance
    ((lastExpressionTrack h like.advance).map (mapAlike fun t u same => ?_))))
  · simp [Tree.Alike]
  · simpa [Tree.Alike] using same

theorem bareTrack (h : TracksTrees expr) (like : c.Like d) :
    Tracks (Option.Rel Tree.Alike) c d (bare expr) (bare expr) := by
  refine .curr ((h .lowest c d like).bind fun value value' c₁ d₁ same like => ?_)
  have built : Option.Rel Tree.Alike (value.map fun t => .statement t c.curr.line)
      (value'.map fun t => .statement t d.curr.line) :=
    mapAlike (fun t u same => by simpa [Tree.Alike] using same) _ _ same
  exact .peekIs like (fun _ => .advance (.pure like.advance built)) (.pure like built)

theorem statementTrack (h : TracksTrees expr) (like : c.Like d) :
    Tracks (Option.Rel Tree.Alike) c d (statement expr) (statement expr) := by
  unfold statement
  refine .curr ?_
  rw [← like.curr.kind]
  split
  · exact definitionTrack h like
  · exact returningTrack h like
  · next named =>
    refine .peek ?_
    rw [like.peek.kind]
    refine .ite (fun _ => bindingTrack h (fun name op t u same => ?_) like named) fun _ => bareTrack h like
    simpa [Tree.Alike] using same
  · exact bareTrack h like

theorem statementsTrack (h : TracksTrees expr) (ends : Kind → Bool) (n : Nat) (like : c.Like d) :
    Tracks Tree.AlikeEach c d (statements expr ends n) (statements expr ends n) := by
  induction n generalizing c d with
  | zero => exact .pure like rfl
  | succ n ih =>
    unfold statements
    refine .curr ?_
    rw [like.curr.kind]
    refine .ite (fun _ => .pure like rfl) fun _ => (statementTrack h like).bind
      fun built built' c₁ d₁ same like => .advance ((ih like.advance).map fun ts us others => ?_)
    cases same with
    | none => exact others
    | some same => exact congrArg₂ List.cons same others

theorem blockTrack (h : TracksTrees expr) (like : c.Like d) :
    Tracks Tree.Alike c d (block expr) (block expr) := by
  refine .curr (.advance (.remaining like.advance
    ((statementsTrack h _ _ like.advance).bind fun body body' c₁ d₁ same like => .curr ?_)))
  have built : (Tree.block body c.curr.line).Alike (.block body' d.curr.line) := by
    simpa [Tree.Alike, Tree.AlikeEach] using same
  rw [like.curr.kind]
  split
  · exact .report (.pure (like.report _ _) built)
  · exact .pure like built

/-! Expressions -/

theorem conditionTrack (h : TracksTrees expr) (like : c.Like d) :
    Tracks (Option.Rel Tree.Alike) c d (condition expr) (condition expr) := by
  unfold condition
  simp only [ifNot]
  refine .expect like (fun _ => .advance ((h .lowest _ _ like.advance.advance).bind
    fun test test' c₁ d₁ same like => ?_)) fun _ _ like => .pure like .none
  cases same with
  | none => exact .pure like .none
  | some same =>
    exact .expect like (fun _ => .expect like.advance (fun _ => .pure like.advance.advance (.some same))
      fun _ _ like => .pure like .none) fun _ _ like => .pure like .none

theorem conditionalTrack (h : TracksTrees expr) (line line' : Nat) (like : c.Like d) :
    Tracks (Option.Rel Tree.Alike) c d (conditional expr line) (conditional expr line') := by
  refine (conditionTrack h like).bind fun test test' c₁ d₁ same like => ?_
  cases same with
  | none => exact .pure like .none
  | some test =>
    refine (blockTrack h like).bind fun yes yes' c₂ d₂ yesSame like => .peekIs like (fun _ => .advance
      (.expect like.advance (fun _ => (blockTrack h like.advance.advance).map fun no no' noSame => .some ?_)
        fun _ _ like => .pure like .none)) (.pure like (.some ?_))
    · simpa [Tree.Alike] using ⟨test, yesSame, noSame⟩
    · simpa [Tree.Alike] using ⟨test, yesSame⟩

theorem repetitionTrack (h : TracksTrees expr) (line line' : Nat) (like : c.Like d) :
    Tracks (Option.Rel Tree.Alike) c d (repetition expr line) (repetition expr line') := by
  refine (conditionTrack h like).bind fun test test' c₁ d₁ same like => ?_
  cases same with
  | none => exact .pure like .none
  | some test =>
    refine (blockTrack h like).map fun body body' same => .some ?_
    simpa [Tree.Alike] using ⟨test, same⟩

theorem functionTrack (h : TracksTrees expr) (line line' : Nat) (like : c.Like d) :
    Tracks (Option.Rel Tree.Alike) c d (function expr line) (function expr line') := by
  unfold function
  simp only [ifNot]
  refine .expect like (fun _ => (parameterListTrack like.advance).bind
    fun params params' c₁ d₁ same like => ?_) fun _ _ like => .pure like .none
  cases same
  cases params with
  | none => exact .pure like .none
  | some params =>
    refine .expect like (fun _ => (blockTrack h like.advance).map fun body body' same => .some ?_)
      fun _ _ like => .pure like .none
    simpa [Tree.Alike] using same

theorem integerTrack (like : c.Like d) :
    Tracks (Option.Rel Tree.Alike) c d (integer c.curr) (integer d.curr) := by
  unfold integer
  dsimp only
  split
  · intro _ _ run
    cases run
  · next short =>
    have text : c.curr.text = d.curr.text := like.curr.text fun _ => Nat.le_of_not_lt short
    rw [← text, if_neg short]
    split
    · exact .report (.pure (like.report _ _) .none)
    · exact .pure like (.some (by simp [Tree.Alike]))

theorem openingTrack (h : TracksTrees expr) {form : Opening} (like : c.Like d)
    (opens : Forms.standardOpening? c.curr.kind = some form) :
    Tracks (Option.Rel Tree.Alike) c d (opening expr c.curr form) (opening expr d.curr form) := by
  have kind := openingKind opens
  cases form with
  | identifier | string =>
    have text : c.curr.text = d.curr.text := like.curr.text (by simp [kind])
    exact .pure like (.some (by simp [Tree.Alike, text]))
  | integer => exact integerTrack like
  | boolean | null => exact .pure like (.some (by simp [Tree.Alike]))
  | group =>
    unfold opening
    simp only [pureIf]
    exact .advance ((h .lowest _ _ like.advance).bind fun inner inner' c₁ d₁ same like =>
      .expect like (fun _ => .pure like.advance same) fun _ _ like => .pure like .none)
  | array =>
    refine (expressionsTrack h .rbracket like).map fun ts us same => ?_
    cases same with
    | none => exact .none
    | some same => exact .some (by simpa [Tree.Alike, Tree.AlikeEach] using same)
  | hash =>
    refine .remaining like ((pairsTrack h _ like).map fun ps qs same => ?_)
    cases same with
    | none => exact .none
    | some same => exact .some (by simpa [Tree.Alike, Tree.AlikePairs] using same)
  | unary =>
    obtain ⟨sign, op, kind, operator⟩ := kind
    have kind' : d.curr.kind = .sign sign := like.curr.kind.symm.trans kind
    rw [openingUnary (by rw [kind]; exact operator), openingUnary (by rw [kind']; exact operator)]
    refine .advance ((h .unary _ _ like.advance).map (mapAlike fun t u same => ?_))
    simpa [Tree.Alike] using same
  | conditional => exact conditionalTrack h _ _ like
  | loop => exact repetitionTrack h _ _ like
  | function => exact functionTrack h _ _ like

theorem continuationTrack (h : TracksTrees expr) {tok tok' : Token} (kinds : tok.kind = tok'.kind)
    {left left' : Tree} (same : left.Alike left') {form : Continuation}
    (continues : Forms.standardContinuation? tok.kind = some form) (like : c.Like d) :
    Tracks (Option.Rel Tree.Alike) c d (continuation expr tok left form)
      (continuation expr tok' left' form) := by
  have left := same
  have kind := continuationKind continues
  cases form with
  | binary =>
    obtain ⟨sign, op, kind, operator⟩ := kind
    have found : tok.kind.binaryOp? = some op := by
      rw [kind]
      exact operator
    rw [continuationBinary found, continuationBinary (kinds ▸ found), kinds]
    refine .advance ((h _ _ _ like.advance).map (mapAlike fun t u same => ?_))
    simpa [Tree.Alike] using ⟨left, same⟩
  | call =>
    refine (expressionsTrack h .rparen like).map fun ts us same => ?_
    cases same with
    | none => exact .none
    | some same => exact .some (by simpa [Tree.Alike, Tree.AlikeEach] using ⟨left, same⟩)
  | index =>
    unfold continuation
    simp only [pureIf]
    refine .advance ((h .lowest _ _ like.advance).bind fun place place' c₁ d₁ same like => ?_)
    cases same with
    | none => exact .pure like .none
    | some same =>
      refine .expect like (fun _ => .pure like.advance (.some ?_)) fun _ _ like => .pure like .none
      simpa [Tree.Alike] using ⟨left, same⟩
  | dot =>
    refine .advance ((h _ _ _ like.advance).map (mapAlike fun t u same => ?_))
    simpa [Tree.Alike] using ⟨left, same⟩

theorem extendTrack (h : TracksTrees expr) (level : Precedence) (n : Nat) {left left' : Tree}
    (same : left.Alike left') (like : c.Like d) :
    Tracks (Option.Rel Tree.Alike) c d (extend .standard expr level n left)
      (extend .standard expr level n left') := by
  induction n generalizing left left' c d with
  | zero => exact .pure like (.some same)
  | succ n ih =>
    unfold extend
    refine .peek ?_
    rw [← like.peek.kind]
    refine .ite (fun _ => .pure like (.some same)) fun _ => ?_
    split
    · exact .pure like (.some same)
    · next form continues =>
      refine .advance ((continuationTrack h like.peek.kind same continues like.advance).bind
        fun grown grown' c₁ d₁ same like => ?_)
      cases same with
      | none => exact .pure like .none
      | some same => exact ih same like

theorem oneExpressionTrack (h : TracksTrees expr) : TracksTrees (oneExpression .standard expr) := by
  intro level c d like
  unfold oneExpression
  refine .curr ?_
  rw [← like.curr.kind]
  split
  · exact .report (.pure (like.report _ _) .none)
  · next opens =>
    refine (openingTrack h like opens).bind fun left left' c₁ d₁ same like => ?_
    cases same with
    | none => exact .pure like .none
    | some same => exact .remaining like (extendTrack h level _ same like)

end

theorem expressionWithinTrack (n : Nat) : TracksTrees (expressionWithin .standard n) := by
  induction n with
  | zero => exact fun _ _ _ like => .pure like .none
  | succ n ih => exact oneExpressionTrack ih

theorem expressionTrack : TracksTrees (expression .standard) :=
  fun level c d like => .remaining like (expressionWithinTrack _ level c d like)

theorem programTrack {c d : Cursor} (like : c.Like d) : Tracks Tree.Alike c d program program := by
  refine .curr (.remaining like ((statementsTrack expressionTrack _ _ like).map fun body body' same => ?_))
  simpa [Tree.Alike, Tree.AlikeEach] using same

end Parser

/-! Whole token sequences -/

theorem derivesFits {phrase : Phrase} {ts : List Token} {next : Kind} (h : Derives phrase ts next) :
    ∀ t ∈ ts, t.kind = .int → Text.Digit.number t.text.toList < Nat.pow 2 63 := by
  have noEnd {es : List Token} {k : Kind} (ends : Ends es k) : ∀ t ∈ es, t.kind ≠ .int := by
    rcases ends with ⟨semicolon, kind, rfl⟩ | ⟨rfl, _⟩ <;> simp [*]
  have assigns {k : Kind} {op : Op} (operator : k.assignOp? = some op) : k ≠ .int := by
    rintro rfl
    cases operator
  induction h with
  | expression _ _ ih | opened _ ih | lastItem _ ih | someParams _ _ ih => exact ih
  | noStatements => simp
  | atom atom => cases atom <;> simp_all
  | define kind named operator _ ends ih =>
    simp only [List.forall_mem_cons, List.forall_mem_append]
    exact ⟨by simp [kind], by simp [named], (absurd · (assigns operator)), ih,
      fun t member int => absurd int (noEnd ends t member)⟩
  | assign named operator _ ends ih =>
    simp only [List.forall_mem_cons, List.forall_mem_append]
    exact ⟨by simp [named], (absurd · (assigns operator)), ih,
      fun t member int => absurd int (noEnd ends t member)⟩
  | returnValue kind _ ends ih =>
    simp only [List.forall_mem_cons, List.forall_mem_append]
    exact ⟨by simp [kind], ih, fun t member int => absurd int (noEnd ends t member)⟩
  | bare _ ends ih =>
    rw [List.forall_mem_append]
    refine ⟨ih, ?_⟩
    rcases ends with ⟨semicolon, kind, rfl⟩ | rfl <;> simp [*]
  | _ => grind

def Token.bounded (digits : String) (t : Token) : Token :=
  if t.kind = .int ∧ Oversize.limit < t.text.toList.length then { t with text := digits } else t

theorem boundedLike (digits : String) (t : Token) : t.Like (t.bounded digits) := by
  unfold Token.bounded
  split
  · next long => exact ⟨rfl, fun short => absurd (short long.1) (Nat.not_le_of_lt long.2)⟩
  · exact ⟨rfl, fun _ => rfl⟩

theorem allBoundedLike (digits : String) (ts : List Token) :
    List.Forall₂ Token.Like ts (ts.map (Token.bounded digits)) :=
  List.forall₂_map_right_iff.2 (List.forall₂_same.2 fun t _ => boundedLike digits t)

theorem boundedProper (digits : String) {ts : List Token} (proper : ∀ t ∈ ts, t.kind ≠ .eof) :
    ∀ t ∈ ts.map (Token.bounded digits), t.kind ≠ .eof := by
  intro u there
  obtain ⟨t, inside, rfl⟩ := List.mem_map.1 there
  exact (boundedLike digits t).kind ▸ proper t inside

theorem likeRun {ts us : List Token} {finish finish' : Token} {tree : Tree} {c : Cursor}
    (ahead : List.Forall₂ Token.Like ts us) (last : finish.Like finish')
    (run : Parser.program.run ⟨ts, finish, []⟩ = .ok (tree, c)) :
    ∃ tree' d, Parser.program.run ⟨us, finish', []⟩ = .ok (tree', d) ∧ tree.Alike tree' ∧ c.Like d := by
  have like : Cursor.Like ⟨ts, finish, []⟩ ⟨us, finish', []⟩ := ⟨ahead, last, rfl⟩
  exact Parser.programTrack like tree c run

theorem runDerives {ts : List Token} {finish : Token} {tree : Tree} {c : Cursor}
    (proper : ∀ t ∈ ts, t.kind ≠ .eof) (ended : finish.kind = .eof)
    (run : Parser.program.run ⟨ts, finish, []⟩ = .ok (tree, c)) (clean : c.errors = []) :
    DerivesProgram ts finish tree := by
  rcases Parser.programRuns ⟨ts, finish, []⟩ ended with ⟨_, failed, _⟩ | ⟨t, c', run', moves, post⟩
  · cases run.symm.trans failed
  · cases run.symm.trans run'
    obtain ⟨last, us, split, derived⟩ := post clean
    change ts = us ++ c.ahead at split
    have whole : c.ahead = [] := by
      cases ahead : c.ahead with
      | nil => rfl
      | cons tok rest =>
        have here : c.curr = tok := by simp [Cursor.curr, ahead]
        have member : tok ∈ ts := by simp [split, ahead]
        exact absurd (here ▸ last) (proper tok member)
    have here : c.curr = finish := by
      rw [Cursor.curr, whole, moves.finish]
      rfl
    rw [whole, List.append_nil] at split
    rw [split, ← here]
    exact derived

def leastOutside : String := "9223372036854775808"

theorem parsedClean {ts : List Token} {finish : Token} {tree : Tree} (proper : ∀ t ∈ ts, t.kind ≠ .eof)
    (ended : finish.kind = .eof) :
    parseTokens (ts ++ [finish]) = .ok ⟨tree, []⟩ ↔ DerivesProgram ts finish tree ∧ Short ts := by
  unfold parseTokens
  rw [Cursor.ofTokensConcat]
  refine ⟨fun h => ?_, fun ⟨derived, short⟩ => ?_⟩
  · cases run : Parser.program.run ⟨ts, finish, []⟩ with
    | error o =>
      rw [run] at h
      cases h
    | ok out =>
      obtain ⟨tree', c⟩ := out
      rw [run] at h
      obtain ⟨rfl, clean⟩ := Parsed.mk.inj (Except.ok.inj h)
      refine ⟨runDerives proper ended run clean, fun t member int => ?_⟩
      -- Were it too long, an integer that is out of range would be derived in its place.
      obtain ⟨tree'', d, run', _, like⟩ := likeRun (allBoundedLike leastOutside ts) ⟨rfl, fun _ => rfl⟩ run
      have clean' : d.errors = [] := List.eq_nil_of_length_eq_zero (by rw [← like.errors, clean]; rfl)
      obtain ⟨body, derived, _⟩ := runDerives (boundedProper leastOutside proper) ended run' clean'
      have fits := derivesFits derived (t.bounded leastOutside) (List.mem_map_of_mem member)
        ((boundedLike leastOutside t).kind ▸ int)
      by_contra long
      have replaced : (t.bounded leastOutside).text = leastOutside := by
        rw [Token.bounded, if_pos ⟨int, Nat.lt_of_not_le long⟩]
      rw [replaced] at fits
      exact absurd fits (by decide)
  · have whole : (⟨ts, finish, []⟩ : Cursor).ahead = ts ++ [] := (List.append_nil ts).symm
    rw [programTaken whole ended short derived]
    rfl

theorem parsedRelined {ts us : List Token} {finish finish' : Token} {tree : Tree}
    (ahead : List.Forall₂ Token.Like ts us) (last : finish.Like finish')
    (h : parseTokens (ts ++ [finish]) = .ok ⟨tree, []⟩) :
    ∃ tree', parseTokens (us ++ [finish']) = .ok ⟨tree', []⟩ ∧ tree.Alike tree' := by
  unfold parseTokens at h ⊢
  rw [Cursor.ofTokensConcat] at h ⊢
  cases run : Parser.program.run ⟨ts, finish, []⟩ with
  | error o =>
    rw [run] at h
    cases h
  | ok out =>
    obtain ⟨tree', c⟩ := out
    rw [run] at h
    obtain ⟨rfl, clean⟩ := Parsed.mk.inj (Except.ok.inj h)
    obtain ⟨tree'', d, run', same, like⟩ := likeRun ahead last run
    have clean' : d.errors = [] := List.eq_nil_of_length_eq_zero (by rw [← like.errors, clean]; rfl)
    refine ⟨tree'', ?_, same⟩
    rw [run', ← clean']
    rfl

end Baby
