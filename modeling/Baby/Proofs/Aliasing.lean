import Baby.Proofs.Frames
import Baby.Proofs.Lexemes

/-! Names share an object only by reference or as parameters. A name that is new gets a copy, and a name that
is bound never gets another object that can be written to, so two names that were not given their objects
from outside hold different ones. -/
namespace Baby

/-! Bindings -/

namespace Store

def Holds (st : Store) (id : ScopeId) (name : String) (v : Value) : Prop :=
  (st.scope id).names.get? name = some v

instance (st : Store) (id : ScopeId) (name : String) (v : Value) : Decidable (st.Holds id name v) :=
  inferInstanceAs (Decidable (_ = _))

section
variable {st st' : Store} {id j : ScopeId} {name n : String} {v u : Value}

theorem holdsSame (scopes : st'.scopes = st.scopes) : st'.Holds j n u ↔ st.Holds j n u := by
  simp only [Holds, scope, scopes]

theorem holdsFound {s : Scope} (found : st.scopes[j]? = some s) :
    st.Holds j n u ↔ s.names.get? n = some u := by
  simp only [Holds, scope, found, Option.getD_some]

theorem bindHolds (h : (st.bind id name v).Holds j n u) :
    (j = id ∧ n = name ∧ u = v) ∨ st.Holds j n u := by
  obtain ⟨s, found, held⟩ := World.scopeFound h
  rw [World.bindScope] at found
  split at found
  · next here =>
    obtain ⟨before, there, rfl⟩ := Option.map_eq_some_iff.1 found
    by_cases same : n = name
    · subst same
      rw [Dict.getPutSelf] at held
      exact .inl ⟨here.symm, rfl, (Option.some.inj held).symm⟩
    · rw [Dict.getPutOther _ _ same] at held
      exact .inr ((holdsFound there).2 held)
  · exact .inr ((holdsFound found).2 held)

theorem bindHoldsOther (h : st.Holds j n u) (other : (id, name) ≠ (j, n)) :
    (st.bind id name v).Holds j n u := by
  obtain ⟨s, found, held⟩ := World.scopeFound h
  by_cases here : id = j
  · subst here
    have apart : n ≠ name := fun same => other (same ▸ rfl)
    have after : (st.bind id name v).scopes[id]? = some { s with names := s.names.put name v } := by
      simp [World.bindScope, found]
    rw [holdsFound after, Dict.getPutOther _ _ apart]
    exact held
  · have after : (st.bind id name v).scopes[j]? = some s := by
      rw [World.bindScope, if_neg here, found]
    exact (holdsFound after).2 held

theorem bindAllHolds {names : List String} {vs : List Value} (h : (st.bindAll id names vs).Holds j n u) :
    (j = id ∧ n ∈ names) ∨ st.Holds j n u := by
  induction names generalizing st vs with
  | nil => exact .inr h
  | cons name names ih =>
    cases vs with
    | nil => exact .inr h
    | cons v vs =>
      rcases ih h with ⟨here, member⟩ | before
      · exact .inl ⟨here, List.mem_cons_of_mem _ member⟩
      · rcases bindHolds before with ⟨here, same, _⟩ | before
        · exact .inl ⟨here, same ▸ List.mem_cons_self⟩
        · exact .inr before

theorem openHolds {outer : Option ScopeId} (h : (st.openScope outer).2.Holds j n u) : st.Holds j n u := by
  obtain ⟨s, found, held⟩ := World.scopeFound h
  rcases World.openScopeFound found with ⟨_, rfl⟩ | found
  · cases held
  · simpa [Holds, scope, found] using held

theorem enterHolds {home : ScopeId} {params : List String} {args : List Value}
    (h : ((Act.enter home params args).run st).2.Holds j n u) :
    (j = st.scopes.size ∧ n ∈ params) ∨ st.Holds j n u := by
  have inside : ((st.openScope (some home)).2.bindAll st.scopes.size params args).Holds j n u := h
  exact (bindAllHolds inside).imp_right openHolds

theorem overwriteScopes (st : Store) (v u : Value) : (st.overwrite v u).scopes = st.scopes := by
  rcases World.overwriteCases st v u with same | ⟨_, _, _, _, _, _, _, _, same⟩
  · rw [same]
  · rw [same]
    rfl

theorem tagFixed (h : ∀ o, st.object? v = some o → o.tag.isMutable = false) :
    (st.tag v).isMutable = false := by
  cases v with
  | ref a =>
    show ((st.objects[a]?.map Object.tag).getD .null).isMutable = false
    cases found : st.objects[a]? with
    | none => rfl
    | some o => exact h o found
  | _ => rfl

theorem assignHolds (h : (st.assign id name v).2.Holds j n u) :
    st.Holds j n u ∨ (j = id ∧ n = name ∧ u = .ref st.objects.size) ∨
      ((st.assign id name v).2.tag u).isMutable = false := by
  rcases World.assignCases st id name v with ⟨_, same⟩ | ⟨_, same⟩ |
    ⟨owner, held, _, _, tags, ⟨_, same⟩ | ⟨fixed, same⟩⟩
  · rw [same] at h
    exact .inl h
  · rw [same] at h ⊢
    rcases World.copyCases st v with ⟨o, _, _, copied⟩ | ⟨fixed, copied⟩
    · rw [copied] at h
      rcases bindHolds h with ⟨here, named, fresh⟩ | before
      · exact .inr (.inl ⟨here, named, fresh⟩)
      · exact .inl before
    · rw [copied] at h ⊢
      rcases bindHolds h with ⟨_, _, rfl⟩ | before
      · exact .inr (.inr (tagFixed fixed))
      · exact .inl before
  · rw [same] at h
    exact .inl ((holdsSame (overwriteScopes ..)).1 h)
  · rw [same] at h ⊢
    rcases bindHolds h with ⟨_, _, rfl⟩ | before
    · exact .inr (.inr (tags ▸ fixed))
    · exact .inl before

theorem assignSpares (h : st.Holds j n u) (there : ∀ a, u = .ref a → a < st.objects.size)
    (other : ∀ owner, st.resolve id name = some owner → (owner, name) ≠ (j, n) ∧
      ∀ held, st.Holds owner name held → (st.tag held).isMutable = true → held ≠ u) :
    (st.assign id name v).2.Holds j n u ∧ (st.assign id name v).2.object? u = st.object? u := by
  rcases World.assignCases st id name v with ⟨_, same⟩ | ⟨absent, same⟩ |
    ⟨owner, held, resolved, found, _, ⟨mutable, same⟩ | ⟨_, same⟩⟩
  · rw [same]
    exact ⟨h, rfl⟩
  · have apart : (id, name) ≠ (j, n) := by
      rintro ⟨⟩
      obtain ⟨s, found, held⟩ := World.scopeFound h
      cases (World.resolveNone absent found).symm.trans held
    rw [same]
    rcases World.copyCases st v with ⟨o, _, _, copied⟩ | ⟨_, copied⟩
    · rw [copied]
      refine ⟨bindHoldsOther h apart, ?_⟩
      cases u with
      | ref a => exact objectAllocOld st o (there a rfl)
      | _ => rfl
    · rw [copied]
      exact ⟨bindHoldsOther h apart, rfl⟩
  · have different := (other owner resolved).2 held found mutable
    rw [same]
    refine ⟨(holdsSame (overwriteScopes ..)).2 h, ?_⟩
    rcases World.overwriteCases st held v with unchanged | ⟨a, _, _, rfl, _, _, _, _, written⟩
    · rw [unchanged]
    · rw [written]
      cases u with
      | ref b => exact objectWriteOther st _ fun same => different (same ▸ rfl)
      | _ => rfl
  · rw [same]
    exact ⟨bindHoldsOther h (other owner resolved).1, rfl⟩

/- Bindings other than the `given` ones hold different objects, if the objects can be written to. -/
def Apart (given : ScopeId → String → Prop) (st : Store) : Prop :=
  ∀ id name v id' name' v', st.Holds id name v → st.Holds id' name' v' → ¬ given id name →
    ¬ given id' name' → (id, name) ≠ (id', name') → (st.tag v).isMutable = true → v ≠ v'

theorem Apart.weaken {given given' : ScopeId → String → Prop} (h : st.Apart given)
    (more : ∀ id name, given id name → given' id name) : st.Apart given' :=
  fun id name v id' name' v' held held' own own' =>
    h id name v id' name' v' held held' (fun there => own (more _ _ there)) fun there => own' (more _ _ there)

end
end Store

/-! Acts -/

def Event.passes (id : ScopeId) (name : String) : Event → Bool
  | .did (.enter _ params _) st => st.scopes.size = id + 1 && name ∈ params
  | _ => false

def Passed (l : List Event) (id : ScopeId) (name : String) : Prop := ∃ e ∈ l, e.passes id name = true

instance (l : List Event) (id : ScopeId) (name : String) : Decidable (Passed l id name) :=
  inferInstanceAs (Decidable (∃ e ∈ l, e.passes id name = true))

section
variable {P : Tree → Prop} {w w' : World} {l l' : List Event} {id : Option ScopeId} {t : Tree} {act : Act}

theorem passedAppend {j : ScopeId} {name : String} (h : Passed l j name) : Passed (l ++ l') j name :=
  h.imp fun _ ⟨member, passes⟩ => ⟨List.mem_append_left _ member, passes⟩

theorem actHolds {j : ScopeId} {name : String} {v : Value} (calm : ∀ j name v, act ≠ .bind j name v)
    (h : (w.after act).store.Holds j name v) :
    w.store.Holds j name v ∨ (Event.did act (w.after act).store).passes j name = true ∨
      (∃ u, act = .assign j name u ∧ v = .ref w.store.objects.size) ∨
      ((w.after act).store.tag v).isMutable = false := by
  cases act with
  | alloc o => exact .inl h
  | copy u =>
    refine .inl ?_
    rcases World.copyAfter w u with ⟨o, _, _, same⟩ | ⟨_, _, same⟩
    · rw [same] at h
      exact h
    · rw [same] at h
      exact h
  | bind k n u => exact absurd rfl (calm k n u)
  | assign k n u =>
    rcases Store.assignHolds h with before | ⟨rfl, rfl, fresh⟩ | fixed
    · exact .inl before
    · exact .inr (.inr (.inl ⟨u, rfl, fresh⟩))
    · exact .inr (.inr (.inr fixed))
  | enter home params args =>
    rcases Store.enterHolds h with ⟨rfl, member⟩ | before
    · exact .inr (.inl (by simp [Event.passes, World.enterSize, member]))
    · exact .inl before
  | print u => exact .inl h

theorem Store.Holds.there (sound : w.Sound P) {j : ScopeId} {name : String} {v : Value}
    (h : w.store.Holds j name v) : w.Ordinary v := by
  obtain ⟨s, found, held⟩ := World.scopeFound h
  exact sound.names j s found name v held

theorem actApart {given : ScopeId → String → Prop} (sound : w.Sound P) (fine : w.Admissible P id t act)
    (calm : ∀ j name v, act ≠ .bind j name v) (apart : w.store.Apart given) :
    (w.after act).store.Apart fun j name =>
      given j name ∨ (Event.did act (w.after act).store).passes j name = true := by
  intro j name v j' name' v' held held' own own' other mutable
  have later := World.actLater sound fine
  have kept (k : ScopeId) (n : String) (u : Value) (h : w.store.Holds k n u) :
      (w.after act).store.tag u = w.store.tag u ∧ u ≠ .ref w.store.objects.size := by
    have ordinary := Store.Holds.there sound h
    refine ⟨Store.tagKept (fun a o found => ?_) ordinary.there, fun fresh => ?_⟩
    · obtain ⟨o', found', tag, _⟩ := later.frame.objects a o found
      exact ⟨o', found', tag⟩
    · exact Nat.lt_irrefl _ (ordinary.there _ fresh)
  rintro rfl
  -- If either binding is new, it holds a copy just made, which nothing held before; and only one is new.
  rcases actHolds calm held with before | passes | ⟨u, made, fresh⟩ | fixed
  · rcases actHolds calm held' with before' | passes | ⟨u, _, fresh⟩ | fixed
    · refine apart j name v j' name' v before before' (fun there => own (.inl there))
        (fun there => own' (.inl there)) other ?_ rfl
      rw [← (kept j name v before).1]
      exact mutable
    · exact own' (.inr passes)
    · exact (kept j name v before).2 fresh
    · rw [fixed] at mutable
      cases mutable
  · exact own (.inr passes)
  · rcases actHolds calm held' with before' | passes | ⟨u', made', _⟩ | fixed
    · exact (kept j' name' v before').2 fresh
    · exact own' (.inr passes)
    · rw [made] at made'
      cases made'
      exact other rfl
    · rw [fixed] at mutable
      cases mutable
  · rw [fixed] at mutable
    cases mutable

theorem Path.apart {own : ScopeId → Prop} (h : Path P own w l' w') (sound : w.Sound P)
    (calm : ∀ j name, ¬ Path.Rebound l' j name) (apart : w.store.Apart (Passed l)) :
    w'.store.Apart (Passed (l ++ l')) := by
  induction h generalizing l with
  | nil => exact apart.weaken fun _ _ => passedAppend
  | @quiet w w' e l' _ _ _ ih =>
    rw [List.append_cons]
    refine ih sound (fun j name ⟨v, st, member⟩ => ?_) (apart.weaken fun _ _ => passedAppend)
    exact calm j name ⟨v, st, List.mem_cons_of_mem _ member⟩
  | @act w w' id t act l' _ fine _ ih =>
    rw [List.append_cons]
    refine ih (World.actSound sound fine) (fun j name ⟨v, st, member⟩ => ?_) ?_
    · exact calm j name ⟨v, st, List.mem_cons_of_mem _ member⟩
    · refine (actApart sound fine (fun j name v same => ?_) apart).weaken fun j name given => ?_
      · subst same
        exact calm j name ⟨v, _, List.mem_cons_self⟩
      · rcases given with given | passes
        · exact passedAppend given
        · exact ⟨_, List.mem_append_right _ List.mem_cons_self, passes⟩

end

/-! Sources -/

def WithoutReference (source : String) : Prop := ∀ tok ∈ tokenize source, tok.kind ≠ .sign .assignRef

theorem Rule.kindSign {r : Rule} {l : List Char} {sign : Sign} (h : r.kind l = .sign sign) :
    r = .sign sign := by
  cases r with
  | word =>
    unfold kind at h
    cases word : Keyword.ofText? (String.ofList l) <;> simp [word] at h
  | sign =>
    cases h
    rfl
  | _ => cases h

theorem scansReference {s : Scanner} {ts : List Token} (h : Scans s ts) {tok : Token} (member : tok ∈ ts)
    (kind : tok.kind = .sign .assignRef) : "=&".toList <:+: s.rest := by
  induction h with
  | finish =>
    rw [List.mem_singleton.1 member] at kind
    cases kind
  | @trivia s r l ts found _ _ ih => exact (ih member).trans (List.drop_suffix ..).isInfix
  | @token s r l ts found _ _ ih =>
    rcases List.mem_cons.1 member with rfl | member
    · have matched := Rule.firstMatches found
      rw [Rule.kindSign kind, Rule.matchSign] at matched
      split at matched
      · next spelled => exact (List.isPrefixOf_iff_prefix.1 spelled).isInfix
      · cases matched
    · exact (ih member).trans (List.drop_suffix ..).isInfix

theorem withoutReferenceText {source : String} (absent : ¬ "=&".toList <:+: source.toList) :
    WithoutReference source :=
  fun _ member kind => absent (scansReference (tokenizeScans source) member kind)

theorem parsedFree {source : String} {tree : Tree} (plain : WithoutReference source)
    (parsed : parse source = .ok ⟨tree, []⟩) : tree.RefFree := by
  obtain ⟨body, line, rfl, built⟩ := parsedBuilt parsed plain
  refine .node (fun _ binds => binds) fun t member => (built t member).mono fun u both => both.2

/-! Sessions -/

namespace Session

def events (s : Session) (source : String) : List Event :=
  match parse source with
  | .ok ⟨tree, []⟩ => (s.trace tree).events
  | _ => []

inductive Past (Q : String → Prop) : List Event → Session → Prop where
  | new (limits : Limits) : Past Q [] (.ofStore .empty limits)
  | run {l s} (before : Past Q l s) (source : String) (allowed : Q source) :
      Past Q (l ++ s.events source) (s.run source).2
  | cut {l s l' st} (before : Past Q l s) {source : String} {tree : Tree} (allowed : Q source)
      (parsed : parse source = .ok ⟨tree, []⟩) (moment : (s.trace tree).Moment l' st) :
      Past Q (l ++ l') { s with store := st }
  | taken {l s} (before : Past Q l s) : Past Q l s.takePrinted.2
  | limit {l s} (before : Past Q l s) (limits : Limits) : Past Q l { s with limits }

theorem runEvents (s : Session) (source : String) :
    ((s.run source).2 = s ∧ s.events source = []) ∨ ∃ tree, parse source = .ok ⟨tree, []⟩ ∧
      (s.run source).2 = { s with store := (s.trace tree).store } ∧
      s.events source = (s.trace tree).events := by
  unfold run events
  rcases parse source with _ | ⟨tree, errors⟩
  · exact .inl ⟨rfl, rfl⟩
  · cases errors with
    | nil =>
      dsimp only
      rw [executeTrace]
      exact .inr ⟨tree, rfl, rfl, rfl⟩
    | cons => exact .inl ⟨rfl, rfl⟩

theorem Past.holds {Q : String → Prop} {R : Tree → Prop} {I : List Event → Store → Prop}
    (closed : Hereditary R) (allowed : ∀ source tree, Q source → parse source = .ok ⟨tree, []⟩ → R tree)
    (first : I [] (Store.empty.openScope none).2)
    (along : ∀ {own w w' l l'}, w.Sound (fun t => t.Inner ∧ R t) →
      Path (fun t => t.Inner ∧ R t) own w l' w' →
      (∀ j name, Path.Rebound l' j name → ∃ t, R t ∧ t.Rebinds name) → I l w.store → I (l ++ l') w'.store)
    (taken : ∀ {l st}, I l st → I l st.clearPrinted) {l : List Event} {s : Session} (past : Past Q l s) :
    ∃ w, s.Shows R w ∧ I l s.store := by
  have moment {s : Session} {w : World} {l l' : List Event} {st : Store} {source : String} {tree : Tree}
      (shows : s.Shows R w) (before : I l s.store) (fine : Q source) (parsed : parse source = .ok ⟨tree, []⟩)
      (upTo : (s.trace tree).Moment l' st) : ∃ w', Shows R { s with store := st } w' ∧ I (l ++ l') st := by
    obtain ⟨w', shows', path, rebound⟩ := stepPath closed shows parsed (allowed source tree fine parsed) upTo
    have start : I l w.store := shows.store ▸ before
    have last : w'.store = st := shows'.store
    exact ⟨w', shows', last ▸ along shows.live.sound path rebound start⟩
  induction past with
  | new limits =>
    obtain ⟨w, shows⟩ := newShows limits
    exact ⟨w, shows, first⟩
  | @run l s _ source fine ih =>
    obtain ⟨w, shows, before⟩ := ih
    rcases s.runEvents source with ⟨same, none⟩ | ⟨tree, parsed, ended, events⟩
    · rw [same, none, List.append_nil]
      exact ⟨w, shows, before⟩
    · rw [ended, events]
      exact moment shows before fine parsed .ended
  | cut _ fine parsed upTo ih =>
    obtain ⟨w, shows, before⟩ := ih
    exact moment shows before fine parsed upTo
  | taken _ ih =>
    obtain ⟨w, shows, before⟩ := ih
    obtain ⟨w', shows', _⟩ := stepLater closed .taken shows
    exact ⟨w', shows', taken before⟩
  | limit _ limits ih =>
    obtain ⟨w, shows, before⟩ := ih
    exact ⟨w, ⟨shows.store, shows.live⟩, before⟩

theorem pastApart {l : List Event} {s : Session} (past : Past WithoutReference l s) :
    ∃ w, s.Shows Tree.RefFree w ∧ s.store.Apart (Passed l) := by
  apply Past.holds (I := fun l st => st.Apart (Passed l)) (everyHereditary _) _ _ _ _ past
  · intro source tree plain parsed
    exact parsedFree plain parsed
  · intro id name v _ _ _ held
    obtain ⟨s, found, _⟩ := World.scopeFound (Store.openHolds held)
    cases found
  · intro own w w' l l' sound path rebound apart
    have calm (j : ScopeId) (name : String) : ¬ Path.Rebound l' j name := fun again => by
      obtain ⟨t, free, binds⟩ := rebound j name again
      exact refFreeRebinds free name binds
    exact path.apart sound calm apart
  · intro l st apart
    exact apart

end Session

/-- Without references, two names that were not passed to a call hold different objects, if these can be
written to. So an assignment to one of them leaves every other with its object, and that as it is. -/
theorem namesNeverShare {l : List Event} {s : Session} (past : Session.Past WithoutReference l s) :
    (∀ id name v id' name' v', s.store.Holds id name v → s.store.Holds id' name' v' →
      ¬ Passed l id name → ¬ Passed l id' name' → (id, name) ≠ (id', name') →
      s.store.tag v ∈ [Tag.integer, .string, .array, .hash] → v ≠ v') ∧
    ∀ id name v j other u, s.store.Holds j other u → ¬ Passed l j other →
      (∀ owner, s.store.resolve id name = some owner →
        ¬ Passed l owner name ∧ (owner, name) ≠ (j, other)) →
      (s.store.assign id name v).2.Holds j other u ∧
        (s.store.assign id name v).2.object? u = s.store.object? u := by
  obtain ⟨w, shows, apart⟩ := Session.pastApart past
  refine ⟨fun id name v id' name' v' held held' own own' other mutable => ?_,
    fun id name v j other u held own resolved => ?_⟩
  · refine apart id name v id' name' v' held held' own own' other ?_
    simp only [List.mem_cons, List.not_mem_nil, or_false] at mutable
    rcases mutable with tag | tag | tag | tag <;> rw [tag] <;> rfl
  · have there : w.Ordinary u := Store.Holds.there shows.live.sound (shows.store ▸ held)
    refine Store.assignSpares held (shows.store ▸ there.there) fun owner found => ?_
    obtain ⟨own', different⟩ := resolved owner found
    exact ⟨different, fun held' there' mutable =>
      apart owner name held' j other u there' held own' own different mutable⟩

def passingSource : String := "x = 1; f = fun(p) { z = p; p = 2; z; }; g = f(x);"

def passing : Session := (Session.new.run passingSource).2

theorem namesNeverSharePassing :
    passing.store.Holds 0 "x" (.ref 1) ∧ passing.store.Holds 1 "p" (.ref 1) ∧
    Passed (Session.new.events passingSource) 1 "p" ∧
    passing.store.Holds 1 "z" (.ref 3) ∧ passing.store.Holds 0 "g" (.ref 5) ∧
    Value.ref 3 ≠ Value.ref 5 ∧
    (passing.store.assign 0 "g" (.ref 1)).2.object? (.ref 3) = passing.store.object? (.ref 3) := by
  have plain : WithoutReference passingSource :=
    withoutReferenceText fun inside => absurd (inside.subset (by simp : '&' ∈ "=&".toList)) (by decide)
  have past : Session.Past WithoutReference (Session.new.events passingSource) passing :=
    .run (.new .standard) passingSource plain
  have z : passing.store.Holds 1 "z" (.ref 3) := by decide
  have g : passing.store.Holds 0 "g" (.ref 5) := by decide
  have ownZ : ¬ Passed (Session.new.events passingSource) 1 "z" := by decide
  have ownG : ¬ Passed (Session.new.events passingSource) 0 "g" := by decide
  obtain ⟨apart, spared⟩ := namesNeverShare past
  have number : passing.store.tag (.ref 3) ∈ [Tag.integer, .string, .array, .hash] := by decide
  refine ⟨by decide, by decide, by decide, z, g,
    apart 1 "z" _ 0 "g" _ z g ownZ ownG (by simp) number, ?_⟩
  refine (spared 0 "g" (.ref 1) 1 "z" (.ref 3) z ownZ fun owner found => ?_).2
  have resolved : passing.store.resolve 0 "g" = some 0 := by decide
  rw [resolved] at found
  cases found
  exact ⟨ownG, by simp⟩

end Baby
