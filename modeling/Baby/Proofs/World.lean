import Baby.Eval.Machine

/-! What is true of a store while programs run, and what stays of an earlier store in a later one.
Both are shown here for every act by itself; runs are made of acts. -/
namespace Baby

/-! Frames -/

namespace Store

def Held (st : Store) (v : Value) (st' : Store) (v' : Value) : Prop :=
  st'.tag v' = st.tag v ∧ ((st.tag v).isMutable = true → v' = v)

structure ScopeFrame (own : Prop) (rebound : String → Prop) (st : Store) (s : Scope) (st' : Store)
    (s' : Scope) : Prop where
  outer : s'.outer = s.outer
  names : s.names.keys <+: s'.names.keys
  closed : ¬ own → s'.names.keys = s.names.keys
  held : ∀ name v, s.names.get? name = some v →
    ∃ v', s'.names.get? name = some v' ∧ (Held st v st' v' ∨ own ∧ rebound name)

/-- What is left of a store when only the scopes `own` were written to: no object changes its type, or
at all if its type does not allow it, and every scope is still there. -/
structure Frame (own : ScopeId → Prop) (rebound : ScopeId → String → Prop) (st st' : Store) :
    Prop where
  objects : ∀ (a : Addr) (o : Object), st.objects[a]? = some o → ∃ o', st'.objects[a]? = some o' ∧ o'.tag = o.tag ∧
    (o.tag.isMutable = false → o' = o)
  scopes : ∀ (id : ScopeId) (s : Scope), st.scopes[id]? = some s → ∃ s', st'.scopes[id]? = some s' ∧
    ScopeFrame (own id) (rebound id) st s st' s'

section
variable {st st₁ st₂ : Store} {v v₁ v₂ : Value} {own own' : ScopeId → Prop}
  {rebound rebound' : ScopeId → String → Prop}

theorem Held.refl : Held st v st v := ⟨rfl, fun _ => rfl⟩

theorem Held.trans (h : Held st v st₁ v₁) (k : Held st₁ v₁ st₂ v₂) : Held st v st₂ v₂ := by
  refine ⟨k.1.trans h.1, fun mutable => ?_⟩
  rw [k.2 (h.1.symm ▸ mutable), h.2 mutable]

theorem ScopeFrame.refl {own : Prop} {rebound : String → Prop} (st : Store) (s : Scope) :
    ScopeFrame own rebound st s st s :=
  ⟨rfl, List.prefix_rfl, fun _ => rfl, fun _ v h => ⟨v, h, .inl .refl⟩⟩

theorem ScopeFrame.trans {own : Prop} {rebound : String → Prop} {s s₁ s₂ : Scope}
    (h : ScopeFrame own rebound st s st₁ s₁) (k : ScopeFrame own rebound st₁ s₁ st₂ s₂) :
    ScopeFrame own rebound st s st₂ s₂ := by
  refine ⟨k.outer.trans h.outer, h.names.trans k.names,
    fun other => (k.closed other).trans (h.closed other), fun name v found => ?_⟩
  obtain ⟨v₁, found₁, first⟩ := h.held name v found
  obtain ⟨v₂, found₂, second⟩ := k.held name v₁ found₁
  refine ⟨v₂, found₂, ?_⟩
  rcases first with first | first
  · exact second.imp first.trans id
  · exact .inr first

theorem Frame.refl (st : Store) : Frame own rebound st st :=
  ⟨fun _ o h => ⟨o, h, rfl, fun _ => rfl⟩, fun _ s h => ⟨s, h, .refl st s⟩⟩

theorem Frame.trans (h : Frame own rebound st st₁) (k : Frame own rebound st₁ st₂) :
    Frame own rebound st st₂ := by
  constructor
  · intro a o found
    obtain ⟨o₁, found₁, tag₁, same₁⟩ := h.objects a o found
    obtain ⟨o₂, found₂, tag₂, same₂⟩ := k.objects a o₁ found₁
    refine ⟨o₂, found₂, tag₂.trans tag₁, fun fixed => ?_⟩
    rw [same₂ (tag₁.symm ▸ fixed), same₁ fixed]
  · intro id s found
    obtain ⟨s₁, found₁, first⟩ := h.scopes id s found
    obtain ⟨s₂, found₂, second⟩ := k.scopes id s₁ found₁
    exact ⟨s₂, found₂, first.trans second⟩

theorem Frame.weaken (h : Frame own rebound st st₁)
    (more : ∀ id, id < st.scopes.size → own id → own' id)
    (more' : ∀ id name, id < st.scopes.size → own id → rebound id name → rebound' id name) :
    Frame own' rebound' st st₁ := by
  refine ⟨h.objects, fun id s found => ?_⟩
  have there := (Array.getElem?_eq_some_iff.1 found).1
  obtain ⟨s', found', kept⟩ := h.scopes id s found
  refine ⟨s', found', kept.outer, kept.names,
    fun other => kept.closed fun mine => other (more id there mine), fun name v held => ?_⟩
  obtain ⟨v', held', same⟩ := kept.held name v held
  exact ⟨v', held', same.imp_right fun ⟨mine, again⟩ =>
    ⟨more id there mine, more' id name there mine again⟩⟩

theorem tagKept (h : ∀ (a : Addr) (o : Object), st.objects[a]? = some o →
    ∃ o', st₁.objects[a]? = some o' ∧ o'.tag = o.tag) (there : ∀ a, v = .ref a → a < st.objects.size) :
    st₁.tag v = st.tag v := by
  cases v with
  | ref a =>
    obtain ⟨o, found⟩ : ∃ o, st.objects[a]? = some o := ⟨_, Array.getElem?_eq_getElem (there a rfl)⟩
    obtain ⟨o', found', same⟩ := h a o found
    simp [tag, found, found', same]
  | _ => rfl

end
end Store

/-! Worlds -/

/- A store, and the objects in it that were made to be the keys of entries. -/
structure World where
  store : Store
  keys : List Addr

namespace World

def Ordinary (w : World) : Value → Prop
  | .ref a => (∃ o, w.store.objects[a]? = some o ∧ o.tag.isMarker = false) ∧ a ∉ w.keys
  | _ => True

def Filed (w : World) (k : HashKey) (v : Value) : Prop :=
  w.store.hashKey? v = some k ∧ ∀ a, v = .ref a → a ∈ w.keys

def SoundObject (P : Tree → Prop) (w : World) : Object → Prop
  | .array xs => ∀ v ∈ xs, w.Ordinary v
  | .hash d => ∀ k e, d.get? k = some e → w.Filed k e.key ∧ w.Ordinary e.value
  | .closure _ body home => P body ∧ home < w.store.scopes.size
  | .returned v => w.Ordinary v
  | .integer _ | .string _ | .error _ => True

structure Sound (P : Tree → Prop) (w : World) : Prop where
  objects : ∀ (a : Addr) (o : Object), w.store.objects[a]? = some o → w.SoundObject P o
  names : ∀ (id : ScopeId) (s : Scope), w.store.scopes[id]? = some s →
    ∀ name v, s.names.get? name = some v → w.Ordinary v
  outer : ∀ (id : ScopeId) (s : Scope), w.store.scopes[id]? = some s →
    ∀ around, s.outer = some around → around < id
  keys : ∀ a ∈ w.keys, a < w.store.objects.size

structure Later (own : ScopeId → Prop) (rebound : ScopeId → String → Prop) (w w' : World) : Prop where
  frame : Store.Frame own rebound w.store w'.store
  old : ∀ a ∈ w.keys, a ∈ w'.keys
  new : ∀ a ∈ w'.keys, a < w.store.objects.size → a ∈ w.keys
  same : ∀ a ∈ w.keys, w'.store.objects[a]? = w.store.objects[a]?

section
variable {P Q : Tree → Prop} {w w₁ w₂ : World} {v : Value} {own own' : ScopeId → Prop}
  {rebound rebound' : ScopeId → String → Prop}

theorem Ordinary.there (h : w.Ordinary v) (a : Addr) (ref : v = .ref a) :
    a < w.store.objects.size := by
  subst ref
  obtain ⟨⟨o, found, _⟩, _⟩ := h
  exact (Array.getElem?_eq_some_iff.1 found).1

theorem Ordinary.object {o : Object} (h : w.Ordinary v) (found : w.store.object? v = some o) :
    o.tag.isMarker = false := by
  cases v with
  | ref a =>
    obtain ⟨⟨o', found', plain⟩, _⟩ := h
    have same : some o = some o' := found.symm.trans found'
    cases same
    exact plain
  | _ => cases found

theorem Sound.object {o : Object} (h : Sound P w) (found : w.store.object? v = some o) :
    w.SoundObject P o := by
  cases v with
  | ref a => exact h.objects a o found
  | _ => cases found

theorem Later.size (h : Later own rebound w w₁) : w.store.objects.size ≤ w₁.store.objects.size := by
  refine Nat.le_of_not_lt fun last => ?_
  obtain ⟨o', found, _⟩ := h.frame.objects _ _ (Array.getElem?_eq_getElem last)
  exact Nat.lt_irrefl _ (Array.getElem?_eq_some_iff.1 found).1

theorem Later.scopes (h : Later own rebound w w₁) {id : ScopeId} (there : id < w.store.scopes.size) :
    id < w₁.store.scopes.size := by
  obtain ⟨s', found, _⟩ := h.frame.scopes _ _ (Array.getElem?_eq_getElem there)
  exact (Array.getElem?_eq_some_iff.1 found).1

theorem Later.scopesSize (h : Later own rebound w w₁) :
    w.store.scopes.size ≤ w₁.store.scopes.size := by
  refine Nat.le_of_not_lt fun last => ?_
  exact Nat.lt_irrefl _ (h.scopes last)

theorem Later.refl (w : World) : Later own rebound w w :=
  ⟨.refl _, fun _ h => h, fun _ h _ => h, fun _ _ => rfl⟩

theorem Later.trans (h : Later own rebound w w₁) (k : Later own rebound w₁ w₂) :
    Later own rebound w w₂ := by
  refine ⟨h.frame.trans k.frame, fun a key => k.old a (h.old a key), fun a key small => ?_,
    fun a key => ?_⟩
  · exact h.new a (k.new a key (Nat.lt_of_lt_of_le small h.size)) small
  · rw [k.same a (h.old a key), h.same a key]

theorem Later.weaken (h : Later own rebound w w₁)
    (more : ∀ id, id < w.store.scopes.size → own id → own' id)
    (more' : ∀ id name, id < w.store.scopes.size → own id → rebound id name → rebound' id name) :
    Later own' rebound' w w₁ :=
  ⟨h.frame.weaken more more', h.old, h.new, h.same⟩

theorem Ordinary.later (h : w.Ordinary v) (k : Later own rebound w w₁) : w₁.Ordinary v := by
  have there := h.there
  cases v with
  | ref a =>
    obtain ⟨⟨o, found, plain⟩, open'⟩ := h
    obtain ⟨o', found', tag, _⟩ := k.frame.objects a o found
    exact ⟨⟨o', found', tag.symm ▸ plain⟩, fun key => open' (k.new a key (there a rfl))⟩
  | _ => trivial

theorem Filed.later {key : HashKey} (h : w.Filed key v) (k : Later own rebound w w₁) :
    w₁.Filed key v := by
  refine ⟨?_, fun a ref => k.old a (h.2 a ref)⟩
  rw [← h.1]
  cases v with
  | ref a => simp only [Store.hashKey?, k.same a (h.2 a rfl)]
  | _ => rfl

theorem SoundObject.later {o : Object} (h : w.SoundObject P o) (k : Later own rebound w w₁) :
    w₁.SoundObject P o := by
  cases o with
  | array xs => exact fun v member => (h v member).later k
  | hash d => exact fun key e found => ⟨(h key e found).1.later k, (h key e found).2.later k⟩
  | closure params body home => exact ⟨h.1, k.scopes h.2⟩
  | returned v => exact Ordinary.later h k
  | _ => trivial

theorem SoundObject.mono {o : Object} (h : w.SoundObject P o) (imp : ∀ t, P t → Q t) :
    w.SoundObject Q o := by
  cases o with
  | closure params body home => exact ⟨imp _ h.1, h.2⟩
  | _ => exact h

theorem Sound.mono (h : Sound P w) (imp : ∀ t, P t → Q t) : Sound Q w :=
  ⟨fun a o found => (h.objects a o found).mono imp, h.names, h.outer, h.keys⟩

theorem Sound.later (k : Later own rebound w w₁)
    (objects : ∀ (a : Addr) (o : Object), w₁.store.objects[a]? = some o → w.SoundObject P o)
    (names : ∀ (id : ScopeId) (s : Scope), w₁.store.scopes[id]? = some s →
      ∀ name v, s.names.get? name = some v → w.Ordinary v ∨ w₁.Ordinary v)
    (outer : ∀ (id : ScopeId) (s : Scope), w₁.store.scopes[id]? = some s →
      ∀ around, s.outer = some around → around < id)
    (keys : ∀ a ∈ w₁.keys, a < w₁.store.objects.size) : Sound P w₁ :=
  ⟨fun a o found => (objects a o found).later k,
    fun id s found name v held => (names id s found name v held).elim (·.later k) fun h => h,
    outer, keys⟩

end
end World
end Baby
