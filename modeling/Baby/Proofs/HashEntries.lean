import Baby.Proofs.Sessions

/-! The entries of a hash are found by the hash keys of their keys. What a program can change is never
the key of an entry, so an entry is found for ever by the hash key it was filed under. -/
namespace Baby

def Store.Files (st : Store) (k : HashKey) (e : Entry) : Prop :=
  ∃ (a : Addr) (d : Dict HashKey Entry), st.objects[a]? = some (.hash d) ∧ (k, e) ∈ d.entries

section
variable {P : Tree → Prop} {w : World} {k : HashKey} {e : Entry}

theorem World.Sound.filed (h : w.Sound P) (files : w.store.Files k e) : w.Filed k e.key := by
  obtain ⟨a, d, found, member⟩ := files
  exact (h.objects a _ found k e (Dict.memGet member)).1

theorem Session.laterFiled {s s' : Session} (h : s.Reachable fun _ => True)
    (leads : Session.Leads (fun _ => True) s s') (files : s.store.Files k e) :
    s'.store.hashKey? e.key = some k := by
  obtain ⟨w, shows⟩ := Session.reachableShows everyTree h
  obtain ⟨w', shows', later⟩ := Session.leadsLater everyTree leads shows
  have filed : w.Filed k e.key := shows.live.sound.filed (shows.store.symm ▸ files)
  rw [← shows'.store]
  exact (filed.later later).1

end

/-- Every entry of every hash is filed under the hash key that its key has now. Whatever hash has an
entry with that key later on, a copy or the hash itself, finds it by the same hash key and no other. -/
theorem entriesNeverStale {s : Session} (h : s.Reachable fun _ => True) :
    (∀ k e, s.store.Files k e → s.store.hashKey? e.key = some k) ∧
      ∀ s', Session.Leads (fun _ => True) s s' → ∀ k e, s.store.Files k e →
        ∀ (a : Addr) (d : Dict HashKey Entry), s'.store.objects[a]? = some (.hash d) →
          ∀ e' ∈ d.values, e'.key = e.key → ∀ k', d.get? k' = some e' ↔ k' = k := by
  refine ⟨fun k e files => Session.laterFiled h .refl files, ?_⟩
  intro s' leads k e files a d found e' member same k'
  obtain ⟨limits, reached⟩ := h
  have reachable : s'.Reachable fun _ => True := ⟨limits, reached.trans leads⟩
  have now : s'.store.hashKey? e.key = some k := Session.laterFiled ⟨limits, reached⟩ leads files
  have under {k₁ : HashKey} (inside : (k₁, e') ∈ d.entries) : k₁ = k := by
    have filed := Session.laterFiled reachable .refl ⟨a, d, found, inside⟩
    rw [same, now] at filed
    exact (Option.some.inj filed).symm
  constructor
  · intro there
    exact under (Dict.getMem there)
  · intro key
    obtain ⟨⟨k₁, _⟩, inside, rfl⟩ := List.mem_map.1 member
    rw [key, ← under inside]
    exact Dict.memGet inside

def copiedKey : Session := (Session.new.run "let k = \"a\"; let h = \x7bk: 1\x7d; let g = h;").2

def changedKey : Session := (copiedKey.run "k = \"b\"; h = \x7b\"c\": 2\x7d;").2

def copiedHash : Dict HashKey Entry := Dict.empty.put ⟨.string, Text.Fnv.digest "a"⟩ ⟨.ref 3, .ref 2⟩

theorem entriesNeverStaleChangedKey :
    changedKey.store.objects[1]? = some (.string "b") ∧
      changedKey.store.objects[6]? = some (.hash copiedHash) ∧
      ∀ k, copiedHash.get? k = some ⟨.ref 3, .ref 2⟩ ↔ k = ⟨.string, Text.Fnv.digest "a"⟩ := by
  have first : Session.Step (fun _ => True) Session.new copiedKey := .run _ fun _ _ => trivial
  have second : Session.Step (fun _ => True) copiedKey changedKey := .run _ fun _ _ => trivial
  have later : changedKey.store.objects[6]? = some (.hash copiedHash) := rfl
  refine ⟨rfl, later, ?_⟩
  exact (entriesNeverStale ⟨.standard, .single first⟩).2 changedKey (.single second) _ _
    ⟨4, copiedHash, rfl, by decide⟩ 6 copiedHash later _ (by decide) rfl

end Baby
