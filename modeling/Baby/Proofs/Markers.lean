import Baby.Proofs.Sessions

/-! Errors and returns are signals: no name and no container ever holds one. -/
namespace Baby

/- Whatever refers to something refers to data, or to a scope that is there. -/
structure Store.Clean (st : Store) : Prop where
  names : ∀ (id : ScopeId) (s : Scope), st.scopes[id]? = some s →
    ∀ binding ∈ s.names.entries, st.Data binding.2
  elements : ∀ (a : Addr) (xs : List Value), st.objects[a]? = some (.array xs) → ∀ v ∈ xs, st.Data v
  entries : ∀ (a : Addr) (d : Dict HashKey Entry), st.objects[a]? = some (.hash d) →
    ∀ filed ∈ d.entries, st.Data filed.2.key ∧ st.Data filed.2.value
  returns : ∀ (a : Addr) (v : Value), st.objects[a]? = some (.returned v) → st.Data v
  closures : ∀ (a : Addr) (params : List String) (body : Tree) (home : ScopeId),
    st.objects[a]? = some (.closure params body home) → home < st.scopes.size
  outer : ∀ (id : ScopeId) (s : Scope), st.scopes[id]? = some s →
    ∀ around, s.outer = some around → around < st.scopes.size

section
variable {P : Tree → Prop} {w : World} {v : Value}

theorem Store.hashableData {st : Store} {k : HashKey} (h : st.hashKey? v = some k) : st.Data v := by
  cases v with
  | ref a =>
    simp only [Store.hashKey?] at h
    split at h
    · next found => exact ⟨_, found, rfl⟩
    · next found => exact ⟨_, found, rfl⟩
    · cases h
  | _ => trivial

theorem World.Sound.clean (h : w.Sound P) : w.store.Clean where
  names id s found binding member :=
    (h.names id s found binding.1 binding.2 (Dict.memGet member)).data
  elements a xs found v member := (h.objects a _ found v member).data
  entries a d found filed member := by
    obtain ⟨key, value⟩ := h.objects a _ found filed.1 filed.2 (Dict.memGet member)
    exact ⟨Store.hashableData key.1, value.data⟩
  returns a v found := World.Ordinary.data (h.objects a _ found)
  closures a params body home found := (h.objects a _ found).2
  outer id s found around out :=
    Nat.lt_trans (h.outer id s found around out) (Array.getElem?_eq_some_iff.1 found).1

end

theorem reachableClean {s : Session} (h : s.Reachable fun _ => True) : s.store.Clean := by
  obtain ⟨w, shows⟩ := Session.reachableShows everyTree h
  rw [← shows.store]
  exact shows.live.sound.clean

/-- In every state of a session, and at every event of every run that starts there. -/
theorem markersNeverData {s : Session} (h : s.Reachable fun _ => True) :
    s.store.Clean ∧ ∀ source tree, parse source = .ok ⟨tree, []⟩ →
      ∀ e ∈ (s.trace tree).events, e.store.Clean := by
  refine ⟨reachableClean h, fun source tree parsed e member => ?_⟩
  obtain ⟨limits, leads⟩ := h
  obtain ⟨l, l', place⟩ := List.append_of_mem member
  have cut : Session.Step (fun _ => True) s { s with store := e.store } :=
    .cut parsed trivial (.during place)
  exact reachableClean ⟨limits, leads.tail cut⟩

def indexedHash : String := "let f = fun() { return {1: [2]}; }; f()[1];"

theorem markersNeverDataIndexedHash :
    (Session.new.run indexedHash).2.store.objects[6]? = some (.returned (.ref 5)) ∧
      (Session.new.run indexedHash).2.store.objects[8]? = some (.error (.notIndexable .hash .integer)) ∧
      (Session.new.run indexedHash).2.store.Clean :=
  have reached : (Session.new.run indexedHash).2.Reachable fun _ => True :=
    ⟨.standard, .single (.run indexedHash fun _ _ => trivial)⟩
  ⟨rfl, rfl, (markersNeverData reached).1⟩

end Baby
