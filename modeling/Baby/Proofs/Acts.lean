import Baby.Proofs.Walk
import Baby.Proofs.World

/-! Acts one by one: each leads from a sound world to a later one that is sound. -/
namespace Baby
namespace World

variable {P : Tree → Prop} {w : World} {own : ScopeId → Prop} {rebound : ScopeId → String → Prop}

/-! New objects -/

theorem Later.ofObjects {w₁ : World} (sound : Sound P w) (scopes : w₁.store.scopes = w.store.scopes)
    (objects : ∀ (a : Addr) (o : Object), w.store.objects[a]? = some o →
      ∃ o', w₁.store.objects[a]? = some o' ∧ o'.tag = o.tag ∧ (o.tag.isMutable = false → o' = o))
    (old : ∀ a ∈ w.keys, a ∈ w₁.keys)
    (new : ∀ a ∈ w₁.keys, a < w.store.objects.size → a ∈ w.keys)
    (same : ∀ a ∈ w.keys, w₁.store.objects[a]? = w.store.objects[a]?) : Later own rebound w w₁ := by
  refine ⟨⟨objects, fun id s found => ⟨s, scopes ▸ found, rfl, List.prefix_rfl, fun _ => rfl, ?_⟩⟩,
    old, new, same⟩
  intro name v held
  have there := (sound.names id s found name v held).there
  have tags (a : Addr) (o : Object) (h : w.store.objects[a]? = some o) :
      ∃ o', w₁.store.objects[a]? = some o' ∧ o'.tag = o.tag := by
    obtain ⟨o', found', tag, _⟩ := objects a o h
    exact ⟨o', found', tag⟩
  exact ⟨v, held, .inl ⟨Store.tagKept tags there, fun _ => rfl⟩⟩

theorem pushOld {st : Store} {o o' : Object} {a : Addr} (found : st.objects[a]? = some o') :
    (st.alloc o).2.objects[a]? = some o' := by
  have small := (Array.getElem?_eq_some_iff.1 found).1
  rw [Store.alloc, Array.getElem?_push, if_neg (Nat.ne_of_lt small), found]

theorem pushCases {st : Store} {o o' : Object} {a : Addr}
    (found : (st.alloc o).2.objects[a]? = some o') : o' = o ∨ st.objects[a]? = some o' := by
  rw [Store.alloc, Array.getElem?_push] at found
  split at found
  · exact .inl (Option.some.inj found).symm
  · exact .inr found

theorem allocLater (sound : Sound P w) (o : Object) :
    Later own rebound w ⟨(w.store.alloc o).2, w.keys⟩ := by
  refine .ofObjects sound rfl (fun a o' found => ⟨o', pushOld found, rfl, fun _ => rfl⟩)
    (fun _ h => h) (fun _ h _ => h) fun a key => ?_
  have small := sound.keys a key
  rw [Array.getElem?_eq_getElem small]
  exact pushOld (Array.getElem?_eq_getElem small)

theorem allocSound (sound : Sound P w) {o : Object} (fine : w.SoundObject P o) :
    Sound P ⟨(w.store.alloc o).2, w.keys⟩ := by
  have later : Later (fun _ => True) (fun _ _ => True) w ⟨(w.store.alloc o).2, w.keys⟩ :=
    allocLater sound o
  refine .later later ?_
    (fun id s found name v held => .inl (sound.names id s found name v held)) sound.outer
    fun a key => Nat.lt_of_lt_of_le (sound.keys a key) later.size
  intro a o' found
  rcases pushCases found with rfl | found
  · exact fine
  · exact sound.objects a o' found

theorem allocOrdinary (sound : Sound P w) {o : Object} (plain : o.tag.isMarker = false) :
    World.Ordinary ⟨(w.store.alloc o).2, w.keys⟩ (.ref w.store.objects.size) :=
  ⟨⟨o, by simp [Store.alloc], plain⟩, fun key => Nat.lt_irrefl _ (sound.keys _ key)⟩

/-! Keys -/

theorem keyLater (sound : Sound P w) (o : Object) :
    Later own rebound w ⟨(w.store.alloc o).2, w.store.objects.size :: w.keys⟩ := by
  have later : Later own rebound w ⟨(w.store.alloc o).2, w.keys⟩ := allocLater sound o
  refine ⟨later.frame, fun a key => List.mem_cons_of_mem _ key, fun a key small => ?_, later.same⟩
  rcases List.mem_cons.1 key with rfl | key
  · exact absurd small (Nat.lt_irrefl _)
  · exact key

theorem keySound (sound : Sound P w) {o : Object} (fine : w.SoundObject P o) :
    Sound P ⟨(w.store.alloc o).2, w.store.objects.size :: w.keys⟩ := by
  have later : Later (fun _ => True) (fun _ _ => True) w
    ⟨(w.store.alloc o).2, w.store.objects.size :: w.keys⟩ := keyLater sound o
  refine .later later ?_
    (fun id s found name v held => .inl (sound.names id s found name v held)) sound.outer ?_
  · intro a o' found
    rcases pushCases found with rfl | found
    · exact fine
    · exact sound.objects a o' found
  · intro a key
    rcases List.mem_cons.1 key with rfl | key
    · simp [Store.alloc]
    · exact Nat.lt_of_lt_of_le (sound.keys a key) later.size

theorem copyCases (st : Store) (v : Value) :
    (∃ o, st.object? v = some o ∧ o.tag.isMutable = true ∧ st.copy v = st.alloc o) ∨
      ((∀ o, st.object? v = some o → o.tag.isMutable = false) ∧ st.copy v = (v, st)) := by
  unfold Store.copy
  cases found : st.object? v with
  | none => exact .inr ⟨by simp, rfl⟩
  | some o =>
    by_cases mutable : o.tag.isMutable = true
    · exact .inl ⟨o, rfl, mutable, by simp [mutable]⟩
    · refine .inr ⟨?_, by simp [mutable]⟩
      rintro _ ⟨⟩
      simpa using mutable

/-! Bindings -/

theorem bindScope (st : Store) (id j : ScopeId) (name : String) (v : Value) :
    (st.bind id name v).scopes[j]? =
      if id = j then st.scopes[j]?.map fun s => { s with names := s.names.put name v }
      else st.scopes[j]? := by
  simp only [Store.bind, Array.getElem?_modify]

theorem bindLater {id : ScopeId} {name : String} {v : Value}
    (mine : ∀ s, w.store.scopes[id]? = some s → own id ∨ name ∈ s.names.keys)
    (before : ∀ s held, w.store.scopes[id]? = some s → s.names.get? name = some held →
      Store.Held w.store held w.store v ∨ own id ∧ rebound id name) :
    Later own rebound w ⟨w.store.bind id name v, w.keys⟩ := by
  refine ⟨⟨fun a o found => ⟨o, found, rfl, fun _ => rfl⟩, fun j s found => ?_⟩,
    fun _ h => h, fun _ h _ => h, fun _ _ => rfl⟩
  by_cases here : id = j
  · subst here
    refine ⟨{ s with names := s.names.put name v }, by simp [bindScope, found], rfl,
      s.names.keysPutPrefix name v, fun other => ?_, fun n u held => ?_⟩
    · rw [Dict.keysPut, if_pos ((mine s found).resolve_left other)]
    · by_cases same : n = name
      · subst same
        exact ⟨v, s.names.getPutSelf n v, before s u found held⟩
      · exact ⟨u, (s.names.getPutOther v same).trans held, .inl ⟨rfl, fun _ => rfl⟩⟩
  · refine ⟨s, by simp [bindScope, here, found], rfl, List.prefix_rfl, fun _ => rfl, fun n u held => ?_⟩
    exact ⟨u, held, .inl ⟨rfl, fun _ => rfl⟩⟩

theorem bindSound (sound : Sound P w) {id : ScopeId} {name : String} {v : Value}
    (fine : w.Ordinary v) : Sound P ⟨w.store.bind id name v, w.keys⟩ := by
  refine ⟨fun a o found => ?_, fun j s' found n u held => ?_, fun j s' found around outer => ?_,
    sound.keys⟩
  · have size : (w.store.bind id name v).scopes.size = w.store.scopes.size := by
      simp [Store.bind]
    have known := sound.objects a o found
    cases o with
    | closure params body home => exact ⟨known.1, size.symm ▸ known.2⟩
    | _ => exact known
  · rw [bindScope] at found
    split at found
    · obtain ⟨s, found₁, rfl⟩ := Option.map_eq_some_iff.1 found
      by_cases same : n = name
      · subst same
        rw [Dict.getPutSelf] at held
        cases held
        exact fine
      · rw [Dict.getPutOther _ _ same] at held
        exact sound.names j s found₁ n u held
    · exact sound.names j s' found n u held
  · rw [bindScope] at found
    split at found
    · obtain ⟨s, found₁, rfl⟩ := Option.map_eq_some_iff.1 found
      exact sound.outer j s found₁ around outer
    · exact sound.outer j s' found around outer

theorem overwriteCases (st : Store) (v u : Value) :
    st.overwrite v u = st ∨ ∃ a old new, v = .ref a ∧ st.objects[a]? = some old ∧
      st.object? u = some new ∧ new.tag = old.tag ∧ old.tag.isMutable = true ∧
      st.overwrite v u = st.write a new := by
  unfold Store.overwrite
  split
  · rename_i a old new second first
    split
    · rename_i same
      simp only [Bool.and_eq_true, decide_eq_true_eq] at same
      exact .inr ⟨a, old, new, rfl, first, second, same.1.symm, same.2, rfl⟩
    · exact .inl rfl
  · exact .inl rfl

theorem writeFound {st : Store} {a b : Addr} {old new o : Object} (here : st.objects[a]? = some old) :
    (st.write a new).objects[b]? = some o ↔ if a = b then o = new else st.objects[b]? = some o := by
  have small := (Array.getElem?_eq_some_iff.1 here).1
  simp only [Store.write, Array.getElem?_setIfInBounds, small, if_true]
  split
  · exact ⟨fun h => (Option.some.inj h).symm, fun h => by rw [h]⟩
  · rfl

theorem overwriteLater (sound : Sound P w) {v u : Value} (fine : w.Ordinary v) :
    Later own rebound w ⟨w.store.overwrite v u, w.keys⟩ := by
  rcases overwriteCases w.store v u with same | ⟨a, old, new, rfl, here, _, tag, mutable, same⟩
  · rw [same]
    exact .refl w
  rw [same]
  refine .ofObjects sound rfl (fun b o found => ?_) (fun _ h => h) (fun _ h _ => h) fun b key => ?_
  · by_cases at' : a = b
    · subst at'
      rw [here] at found
      cases found
      exact ⟨new, (writeFound here).2 (by simp), tag, fun fixed => absurd mutable (by simp [fixed])⟩
    · exact ⟨o, (writeFound here).2 (by simpa [at'] using found), rfl, fun _ => rfl⟩
  · have other : a ≠ b := by
      rintro rfl
      exact fine.2 key
    simp [Store.write, other]

theorem overwriteSound (sound : Sound P w) {v u : Value} (fine : w.Ordinary v) :
    Sound P ⟨w.store.overwrite v u, w.keys⟩ := by
  have later : Later (fun _ => True) (fun _ _ => True) w ⟨w.store.overwrite v u, w.keys⟩ :=
    overwriteLater sound fine
  rcases overwriteCases w.store v u with same | ⟨a, old, new, _, here, found, _, _, same⟩
  · rw [same]
    exact sound
  rw [same] at later ⊢
  refine .later later (fun b o at' => ?_)
    (fun id s found name v held => .inl (sound.names id s found name v held)) sound.outer
    fun b key => Nat.lt_of_lt_of_le (sound.keys b key) later.size
  rw [writeFound here] at at'
  split at at'
  · subst at'
    exact sound.object found
  · exact sound.objects b o at'

/-! Assignments -/

theorem assignCases (st : Store) (id : ScopeId) (name : String) (v : Value) :
    (∃ refusal, st.assign id name v = (refusal, st)) ∨
    (st.resolve id name = none ∧
      st.assign id name v = (none, (st.copy v).2.bind id name (st.copy v).1)) ∨
    ∃ owner held, st.resolve id name = some owner ∧ (st.scope owner).names.get? name = some held ∧
      st.tag held = st.tag v ∧
      ((st.tag held).isMutable = true ∧ st.assign id name v = (none, st.overwrite held v) ∨
        (st.tag held).isMutable = false ∧ st.assign id name v = (none, st.bind owner name v)) := by
  unfold Store.assign
  split
  · rename_i absent
    exact .inr (.inl ⟨absent, rfl⟩)
  · rename_i owner resolved
    split
    · exact .inl ⟨_, rfl⟩
    · rename_i held found
      split
      · exact .inl ⟨_, rfl⟩
      · rename_i same
        have tags : st.tag held = st.tag v := by simpa using same
        refine .inr (.inr ⟨owner, held, resolved, found, tags, ?_⟩)
        by_cases mutable : (st.tag held).isMutable = true
        · exact .inl ⟨mutable, by simp [mutable]⟩
        · exact .inr ⟨by simpa using mutable, by simp [mutable]⟩

theorem resolveNone {st : Store} {id : ScopeId} {name : String} {s : Scope}
    (absent : st.resolve id name = none) (found : st.scopes[id]? = some s) :
    s.names.get? name = none := by
  have small := (Array.getElem?_eq_some_iff.1 found).1
  have first : id ∈ st.chain id := by
    unfold Store.chain
    obtain ⟨n, size⟩ : ∃ n, st.scopes.size = n + 1 := ⟨st.scopes.size - 1, by omega⟩
    rw [size, Store.chainWithin]
    exact List.mem_cons_self
  have none := List.find?_eq_none.1 absent id first
  have here : st.scope id = s := by simp [Store.scope, found]
  rw [here, Dict.containsGet] at none
  cases held : s.names.get? name with
  | none => rfl
  | some v => exact absurd ⟨v, held⟩ none

theorem scopeFound {st : Store} {id : ScopeId} {name : String} {v : Value}
    (held : (st.scope id).names.get? name = some v) :
    ∃ s, st.scopes[id]? = some s ∧ s.names.get? name = some v := by
  unfold Store.scope at held
  cases found : st.scopes[id]? with
  | none =>
    rw [found] at held
    cases held
  | some s => exact ⟨s, rfl, by simpa [found] using held⟩

theorem mineOfHeld {d : Dict String Value} {name : String} {v : Value} (h : d.get? name = some v) :
    name ∈ d.keys := by
  have there := Dict.containsGet.2 ⟨v, h⟩
  simpa [Dict.contains] using there

theorem assignNewLater (sound : Sound P w) {id : ScopeId} {name : String} {v : Value}
    (mine : own id) (absent : w.store.resolve id name = none) :
    Later own rebound w ⟨(w.store.copy v).2.bind id name (w.store.copy v).1, w.keys⟩ := by
  have unbound (s : Scope) (held : Value) (found : w.store.scopes[id]? = some s)
      (there : s.names.get? name = some held) : False := by
    rw [resolveNone absent found] at there
    cases there
  rcases copyCases w.store v with ⟨o, found, _, same⟩ | ⟨_, same⟩
  · rw [same]
    refine (allocLater sound o).trans (bindLater
      (fun _ _ => .inl mine) fun s held here there => ?_)
    exact absurd there fun there => unbound s held here there
  · rw [same]
    exact bindLater (fun _ _ => .inl mine) fun s held here there =>
      absurd there fun there => unbound s held here there

theorem assignNewSound (sound : Sound P w) {id : ScopeId} {name : String} {v : Value}
    (fine : w.Ordinary v) :
    Sound P ⟨(w.store.copy v).2.bind id name (w.store.copy v).1, w.keys⟩ := by
  rcases copyCases w.store v with ⟨o, found, mutable, same⟩ | ⟨_, same⟩
  · rw [same]
    exact bindSound (allocSound sound (sound.object found))
      (allocOrdinary sound (fine.object found))
  · rw [same]
    exact bindSound sound fine

theorem assignLater (sound : Sound P w) {id : ScopeId} {name : String} {v : Value} (mine : own id) :
    Later own rebound w ⟨(w.store.assign id name v).2, w.keys⟩ := by
  rcases assignCases w.store id name v with ⟨_, same⟩ | ⟨absent, same⟩ |
    ⟨owner, held, _, there, tags, ⟨_, same⟩ | ⟨fixed, same⟩⟩
  · rw [same]
    exact .refl w
  · rw [same]
    exact assignNewLater sound mine absent
  · obtain ⟨s, found, there⟩ := scopeFound there
    rw [same]
    exact overwriteLater sound (sound.names owner s found name held there)
  · obtain ⟨s, found, there⟩ := scopeFound there
    rw [same]
    refine bindLater (fun s' found' => ?_) fun s' held' found' there' => ?_
    · rw [found] at found'
      cases found'
      exact .inr (mineOfHeld there)
    · rw [found] at found'
      cases found'
      rw [there] at there'
      cases there'
      exact .inl ⟨tags.symm, fun mutable => absurd mutable (by simp [fixed])⟩

theorem assignSound (sound : Sound P w) {id : ScopeId} {name : String} {v : Value}
    (fine : w.Ordinary v) : Sound P ⟨(w.store.assign id name v).2, w.keys⟩ := by
  rcases assignCases w.store id name v with ⟨_, same⟩ | ⟨_, same⟩ |
    ⟨owner, held, _, there, _, ⟨_, same⟩ | ⟨_, same⟩⟩
  · rw [same]
    exact sound
  · rw [same]
    exact assignNewSound sound fine
  · obtain ⟨s, found, there⟩ := scopeFound there
    rw [same]
    exact overwriteSound sound (sound.names owner s found name held there)
  · rw [same]
    exact bindSound sound fine

/-! Entering a function -/

theorem openScopeFound {st : Store} {outer : Option ScopeId} {id : ScopeId} {s : Scope}
    (found : (st.openScope outer).2.scopes[id]? = some s) :
    (id = st.scopes.size ∧ s = ⟨.empty, outer⟩) ∨ st.scopes[id]? = some s := by
  rw [Store.openScope, Array.getElem?_push] at found
  split at found
  · exact .inl ⟨‹_›, (Option.some.inj found).symm⟩
  · exact .inr found

theorem openLater (outer : Option ScopeId) :
    Later own rebound w ⟨(w.store.openScope outer).2, w.keys⟩ := by
  refine ⟨⟨fun a o found => ⟨o, found, rfl, fun _ => rfl⟩, fun id s found => ⟨s, ?_, rfl,
    List.prefix_rfl, fun _ => rfl, fun name v held => ⟨v, held, .inl ⟨rfl, fun _ => rfl⟩⟩⟩⟩,
    fun _ h => h, fun _ h _ => h, fun _ _ => rfl⟩
  have small := (Array.getElem?_eq_some_iff.1 found).1
  rw [Store.openScope, Array.getElem?_push, if_neg (Nat.ne_of_lt small), found]

theorem openSound (sound : Sound P w) {outer : Option ScopeId}
    (around : ∀ id, outer = some id → id < w.store.scopes.size) :
    Sound P ⟨(w.store.openScope outer).2, w.keys⟩ := by
  have later : Later (fun _ => True) (fun _ _ => True) w ⟨(w.store.openScope outer).2, w.keys⟩ :=
    openLater outer
  refine .later later sound.objects (fun id s found name v held => ?_) (fun id s found j out => ?_)
    sound.keys
  · rcases openScopeFound found with ⟨_, rfl⟩ | found
    · cases held
    · exact .inl (sound.names id s found name v held)
  · rcases openScopeFound found with ⟨rfl, rfl⟩ | found
    · exact around j out
    · exact sound.outer id s found j out

theorem bindAllLater (sound : Sound P w) (id : ScopeId) (names : List String) {vs : List Value}
    (fine : ∀ v ∈ vs, w.Ordinary v) :
    Later (· = id) (fun _ _ => True) w ⟨w.store.bindAll id names vs, w.keys⟩ ∧
      Sound P ⟨w.store.bindAll id names vs, w.keys⟩ := by
  induction names generalizing w vs with
  | nil => exact ⟨.refl w, sound⟩
  | cons name names ih =>
    cases vs with
    | nil => exact ⟨.refl w, sound⟩
    | cons v vs =>
      have first : Later (· = id) (fun _ _ => True) w ⟨w.store.bind id name v, w.keys⟩ :=
        bindLater (fun _ _ => .inl rfl) fun _ _ _ _ => .inr ⟨rfl, trivial⟩
      have sound₁ : Sound P ⟨w.store.bind id name v, w.keys⟩ := bindSound sound (fine v (by simp))
      obtain ⟨later, last⟩ :=
        ih sound₁ fun u member => (fine u (List.mem_cons_of_mem v member)).later first
      exact ⟨first.trans later, last⟩

theorem bindAllSize (st : Store) (id : ScopeId) (names : List String) (vs : List Value) :
    (st.bindAll id names vs).scopes.size = st.scopes.size := by
  induction names generalizing st vs with
  | nil => rfl
  | cons name names ih =>
    cases vs with
    | nil => rfl
    | cons v vs =>
      rw [Store.bindAll, ih]
      simp [Store.bind]

theorem enterSize (st : Store) (home : ScopeId) (params : List String) (args : List Value) :
    ((Act.enter home params args).run st).2.scopes.size = st.scopes.size + 1 := by
  have open' : ((Act.enter home params args).run st).2 =
    (st.openScope (some home)).2.bindAll st.scopes.size params args := rfl
  rw [open', bindAllSize]
  simp [Store.openScope]

theorem enterLater (sound : Sound P w) {home : ScopeId} (there : home < w.store.scopes.size)
    (params : List String) {args : List Value} (fine : ∀ v ∈ args, w.Ordinary v) :
    Later own rebound w ⟨((Act.enter home params args).run w.store).2, w.keys⟩ ∧
      Sound P ⟨((Act.enter home params args).run w.store).2, w.keys⟩ := by
  have first : Later (· = w.store.scopes.size) (fun _ _ => True) w
      ⟨(w.store.openScope (some home)).2, w.keys⟩ := openLater (some home)
  have sound₁ : Sound P ⟨(w.store.openScope (some home)).2, w.keys⟩ :=
    openSound sound fun _ same => Option.some.inj same ▸ there
  obtain ⟨second, last⟩ :=
    bindAllLater sound₁ w.store.scopes.size params fun v member => (fine v member).later first
  refine ⟨(first.trans second).weaken (fun j small same => ?_) fun j _ small same => ?_, last⟩
  · exact absurd same (Nat.ne_of_lt small)
  · exact absurd same (Nat.ne_of_lt small)

/-! Output is not part of what is kept. -/

theorem printedLater (sound : Sound P w) (printed : Array Printed) :
    Later own rebound w ⟨{ w.store with printed }, w.keys⟩ :=
  .ofObjects sound rfl (fun _ o found => ⟨o, found, rfl, fun _ => rfl⟩) (fun _ h => h)
    (fun _ h _ => h) fun _ _ => rfl

theorem printedSound (sound : Sound P w) (printed : Array Printed) :
    Sound P ⟨{ w.store with printed }, w.keys⟩ :=
  ⟨sound.objects, sound.names, sound.outer, sound.keys⟩

end World

/-! Acts -/

def Act.Rebinds : Act → ScopeId → String → Prop
  | .bind j name _, id, n => j = id ∧ name = n
  | _, _, _ => False

namespace World
variable {P : Tree → Prop} {w : World} {id : Option ScopeId} {t : Tree} {act : Act}

def Admissible (P : Tree → Prop) (id : Option ScopeId) (t : Tree) (w : World) : Act → Prop
  | .alloc o => w.SoundObject P o
  | .copy v | .print ⟨v, _⟩ => w.Ordinary v
  | .bind j name v => id = some j ∧ t.Rebinds name ∧ w.Ordinary v
  | .assign j _ v => id = some j ∧ w.Ordinary v
  | .enter home _ args => home < w.store.scopes.size ∧ ∀ v ∈ args, w.Ordinary v

/- A copy made by itself is made for a key. -/
def keysAfter (w : World) : Act → List Addr
  | .copy v =>
      if ((w.store.object? v).any fun o => o.tag.isMutable) then w.store.objects.size :: w.keys
      else w.keys
  | _ => w.keys

def after (w : World) (act : Act) : World := ⟨(act.run w.store).2, w.keysAfter act⟩

@[simp] theorem afterStore (w : World) (act : Act) : (w.after act).store = (act.run w.store).2 := rfl

theorem copyAfter (w : World) (v : Value) :
    (∃ o, w.store.object? v = some o ∧ w.store.copy v = w.store.alloc o ∧
      w.after (.copy v) = ⟨(w.store.alloc o).2, w.store.objects.size :: w.keys⟩) ∨
    ((∀ o, w.store.object? v = some o → o.tag.isMutable = false) ∧ w.store.copy v = (v, w.store) ∧
      w.after (.copy v) = w) := by
  rcases copyCases w.store v with ⟨o, found, mutable, same⟩ | ⟨fixed, same⟩
  · exact .inl ⟨o, found, same, by simp [after, keysAfter, Act.run, same, found, mutable]⟩
  · refine .inr ⟨fixed, same, ?_⟩
    have none : ((w.store.object? v).any fun o => o.tag.isMutable) = false := by
      cases found : w.store.object? v with
      | none => rfl
      | some o => exact fixed o found
    simp [after, keysAfter, Act.run, same, none]

theorem actLater (sound : Sound P w) (fine : Admissible P id t w act) :
    Later (id = some ·) act.Rebinds w (w.after act) := by
  cases act with
  | alloc o => exact allocLater sound o
  | copy v =>
    rcases copyAfter w v with ⟨o, _, _, same⟩ | ⟨_, _, same⟩
    · rw [same]
      exact keyLater sound o
    · rw [same]
      exact .refl w
  | bind j name v =>
    obtain ⟨rfl, _, _⟩ := fine
    exact bindLater (fun _ _ => .inl rfl) fun _ _ _ _ => .inr ⟨rfl, rfl, rfl⟩
  | assign j name v =>
    obtain ⟨rfl, _⟩ := fine
    exact assignLater sound rfl
  | enter home params args => exact (enterLater sound fine.1 params fine.2).1
  | print line => exact printedLater sound _

theorem actSound (sound : Sound P w) (fine : Admissible P id t w act) : Sound P (w.after act) := by
  cases act with
  | alloc o => exact allocSound sound fine
  | copy v =>
    rcases copyAfter w v with ⟨o, found, _, same⟩ | ⟨_, _, same⟩
    · rw [same]
      exact keySound sound (sound.object found)
    · rw [same]
      exact sound
  | bind j name v => exact bindSound sound fine.2.2
  | assign j name v => exact assignSound sound fine.2
  | enter home params args =>
    have both : Later (fun _ => True) (fun _ _ => True) _ _ ∧ Sound P _ :=
      enterLater sound fine.1 params fine.2
    exact both.2
  | print line => exact printedSound sound _

end World
end Baby
