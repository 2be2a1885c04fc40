/-! Dictionaries that keep the order in which their keys first came. -/
namespace Baby

structure Dict (κ α : Type) where
  entries : List (κ × α)
  distinct : (entries.map Prod.fst).Nodup
  deriving DecidableEq, Repr

namespace Dict
variable {κ α : Type}

def empty : Dict κ α := ⟨[], .nil⟩

instance : Inhabited (Dict κ α) := ⟨empty⟩

def keys (d : Dict κ α) : List κ := d.entries.map Prod.fst

def values (d : Dict κ α) : List α := d.entries.map Prod.snd

variable [DecidableEq κ]

def find (k : κ) (es : List (κ × α)) : Option α := (es.find? fun e => e.1 = k).map Prod.snd

def get? (d : Dict κ α) (k : κ) : Option α := find k d.entries

def contains (d : Dict κ α) (k : κ) : Bool := k ∈ d.keys

def putIn (k : κ) (a : α) : List (κ × α) → List (κ × α)
  | [] => [(k, a)]
  | e :: es => if e.1 = k then (k, a) :: es else e :: putIn k a es

theorem putInKeys (k : κ) (a : α) (es : List (κ × α)) :
    (putIn k a es).map Prod.fst =
      if k ∈ es.map Prod.fst then es.map Prod.fst else es.map Prod.fst ++ [k] := by
  induction es with
  | nil => simp [putIn]
  | cons e es ih =>
    by_cases h : e.1 = k
    · simp [putIn, h]
    · have h' : ¬ k = e.1 := Ne.symm h
      by_cases m : k ∈ es.map Prod.fst <;> simp_all [putIn]

theorem putInDistinct (k : κ) (a : α) {es : List (κ × α)} (h : (es.map Prod.fst).Nodup) :
    ((putIn k a es).map Prod.fst).Nodup := by
  rw [putInKeys]
  split
  · exact h
  · rename_i m
    rw [List.nodup_append]
    refine ⟨h, by simp, ?_⟩
    intro x hx y hy same
    simp only [List.mem_singleton] at hy
    exact m (by rw [← hy, ← same]; exact hx)

/-- A key that is there keeps its place, a new one goes to the end. -/
def put (d : Dict κ α) (k : κ) (a : α) : Dict κ α :=
  ⟨putIn k a d.entries, putInDistinct k a d.distinct⟩

theorem findPutSelf (k : κ) (a : α) (es : List (κ × α)) : find k (putIn k a es) = some a := by
  induction es with
  | nil => simp [putIn, find]
  | cons e es ih =>
    by_cases h : e.1 = k
    · simp [putIn, find, h]
    · simpa [putIn, find, h] using ih

theorem findPutOther {k k' : κ} (a : α) (es : List (κ × α)) (h : k' ≠ k) :
    find k' (putIn k a es) = find k' es := by
  induction es with
  | nil => simp [putIn, find, Ne.symm h]
  | cons e es ih =>
    by_cases he : e.1 = k
    · simp [putIn, find, he, Ne.symm h]
    · by_cases hk : e.1 = k'
      · simp [putIn, find, hk, h]
      · simpa [putIn, find, he, hk] using ih

theorem getPutSelf (d : Dict κ α) (k : κ) (a : α) : (d.put k a).get? k = some a :=
  findPutSelf k a d.entries

theorem getPutOther (d : Dict κ α) {k k' : κ} (a : α) (h : k' ≠ k) :
    (d.put k a).get? k' = d.get? k' :=
  findPutOther a d.entries h

theorem keysPut (d : Dict κ α) (k : κ) (a : α) :
    (d.put k a).keys = if k ∈ d.keys then d.keys else d.keys ++ [k] :=
  putInKeys k a d.entries

theorem getMem {d : Dict κ α} {k : κ} {a : α} (h : d.get? k = some a) : (k, a) ∈ d.entries := by
  unfold get? find at h
  obtain ⟨e, found, rfl⟩ := Option.map_eq_some_iff.1 h
  have same : e.1 = k := by simpa using List.find?_some found
  rw [← same]
  exact List.mem_of_find?_eq_some found

theorem memGet {d : Dict κ α} {k : κ} {a : α} (h : (k, a) ∈ d.entries) : d.get? k = some a := by
  have distinct := d.distinct
  unfold get? find
  generalize d.entries = es at *
  induction es with
  | nil => cases h
  | cons e es ih =>
    rw [List.map_cons, List.nodup_cons] at distinct
    rcases List.mem_cons.1 h with rfl | member
    · simp
    · have other : e.1 ≠ k := by
        rintro rfl
        exact distinct.1 (List.mem_map.2 ⟨_, member, rfl⟩)
      rw [List.find?_cons_of_neg (by simpa using other)]
      exact ih member distinct.2

theorem containsGet {d : Dict κ α} {k : κ} : d.contains k = true ↔ ∃ a, d.get? k = some a := by
  unfold contains keys
  rw [decide_eq_true_eq, List.mem_map]
  constructor
  · rintro ⟨⟨_, a⟩, member, rfl⟩
    exact ⟨a, memGet member⟩
  · rintro ⟨a, h⟩
    exact ⟨(k, a), getMem h, rfl⟩

theorem keysPutPrefix (d : Dict κ α) (k : κ) (a : α) : d.keys <+: (d.put k a).keys := by
  rw [keysPut]
  split
  · exact List.prefix_rfl
  · exact List.prefix_append _ _

theorem foldedKey {l : List (κ × α)} {d : Dict κ α} {k : κ} (given : k ∈ d.keys ∨ k ∈ l.map Prod.fst) :
    k ∈ (l.foldl (fun d e => d.put e.1 e.2) d).keys := by
  induction l generalizing d with
  | nil =>
    rcases given with old | none
    · exact old
    · cases none
  | cons e l ih =>
    refine ih ?_
    rcases given with old | new
    · exact .inl ((keysPutPrefix d e.1 e.2).subset old)
    · rcases List.mem_cons.1 new with rfl | later
      · refine .inl ?_
        rw [keysPut]
        split
        · assumption
        · exact List.mem_append_right _ (List.mem_singleton.2 rfl)
      · exact .inr later

theorem getKeys (d : Dict κ α) : d.keys.map d.get? = d.values.map some := by
  unfold keys values
  rw [List.map_map, List.map_map]
  exact List.map_congr_left fun e member => memGet member

theorem valuesGet (d : Dict κ α) : d.values = d.keys.filterMap d.get? := by
  have values : d.values = (d.values.map some).filterMap id := by simp [List.filterMap_map]
  rw [values, ← getKeys, List.filterMap_map]
  rfl

end Dict

theorem eraseDupsConcat {α : Type} [DecidableEq α] (l : List α) (a : α) :
    (l ++ [a]).eraseDups = if a ∈ l.eraseDups then l.eraseDups else l.eraseDups ++ [a] := by
  rw [List.eraseDups_append]
  by_cases old : a ∈ l
  · rw [if_pos (List.mem_eraseDups.2 old)]
    simp [List.removeAll, old]
  · rw [if_neg fun member => old (List.mem_eraseDups.1 member)]
    simp [List.removeAll, old, List.eraseDups_cons]

end Baby
