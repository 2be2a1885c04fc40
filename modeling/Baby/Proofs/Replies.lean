import Baby.Proofs.World

/-! Replies to ordinary values in a sound world are sound: they give data that is there already, or an
object made of such data. -/
namespace Baby
namespace World

variable {P : Tree → Prop} {w : World}

def SoundReply (P : Tree → Prop) (w : World) : Reply → Prop
  | .ok (.old v) => w.Ordinary v
  | .ok (.fresh o) => w.SoundObject P o ∧ o.tag.isMarker = false
  | .ok .tooDeep | .error _ => True

theorem soundTruth (b : Bool) : w.SoundReply P (.truth b) := trivial

theorem soundTruth? (b : Option Bool) : w.SoundReply P (.truth? b) := by
  cases b <;> trivial

theorem soundNumber (n : Int) : w.SoundReply P (.number n) := ⟨trivial, rfl⟩

theorem soundString (s : String) : w.SoundReply P (.ok (.fresh (.string s))) := ⟨trivial, rfl⟩

theorem soundArray {xs : List Value} (h : ∀ v ∈ xs, w.Ordinary v) :
    w.SoundReply P (.ok (.fresh (.array xs))) := ⟨h, rfl⟩

theorem elements (sound : w.Sound P) {v : Value} {xs : List Value}
    (found : w.store.object? v = some (.array xs)) : ∀ u ∈ xs, w.Ordinary u :=
  sound.object found

theorem elementOrNull {xs : List Value} {r : Option Value} (h : ∀ v ∈ xs, w.Ordinary v)
    (member : ∀ v, r = some v → v ∈ xs) : w.Ordinary (r.getD .null) := by
  cases r with
  | none => trivial
  | some v => exact h v (member v rfl)

theorem soundName (sound : w.Sound P) (id : ScopeId) (name : String) :
    w.SoundReply P (w.store.nameReply id name) := by
  unfold Store.nameReply
  split
  · next v found =>
    unfold Store.lookup at found
    obtain ⟨owner, _, held⟩ := Option.bind_eq_some_iff.1 found
    unfold Store.scope at held
    cases there : w.store.scopes[owner]? with
    | none =>
      rw [there] at held
      cases held
    | some s =>
      rw [there] at held
      exact sound.names owner s there name v held
  · split <;> trivial

theorem soundIntegers (op : Op) (a b : Int64) : w.SoundReply P (integerReply op a b) := by
  unfold integerReply
  dsimp only
  split
  case h_4 => split <;> first | exact soundNumber _ | trivial
  all_goals first | exact soundNumber _ | exact soundTruth _ | trivial

theorem soundBinary (depth : Nat) (op : Op) (v u : Value) :
    w.SoundReply P (w.store.binaryReply depth op v u) := by
  unfold Store.binaryReply
  split
  case h_7 =>
    unfold Store.operandsReply
    split
    · exact soundIntegers op _ _
    · split
      · exact soundString _
      · trivial
    · split <;> trivial
  all_goals first | exact soundTruth _ | exact soundTruth? _

theorem soundUnary (op : Op) (v : Value) : w.SoundReply P (w.store.unaryReply op v) := by
  unfold Store.unaryReply
  split
  · split <;> exact soundTruth _
  · split
    · exact soundNumber _
    · trivial
  · trivial

theorem soundIndex (sound : w.Sound P) (v place : Value) :
    w.SoundReply P (w.store.indexReply v place) := by
  unfold Store.indexReply
  split
  · next xs n found _ =>
    refine elementOrNull (elements sound found) fun u same => ?_
    obtain ⟨i, _, there⟩ := Option.bind_eq_some_iff.1 same
    exact List.mem_of_getElem? there
  · trivial

theorem soundAttribute (sound : w.Sound P) (v key : Value) :
    w.SoundReply P (w.store.attributeReply v key) := by
  unfold Store.attributeReply
  split
  · next d found =>
    split
    · next k _ =>
      have entries : w.SoundObject P (.hash d) := sound.object found
      cases there : d.get? k with
      | none => trivial
      | some e => exact (entries k e there).2
    · trivial
  · trivial

/-! The built-in functions -/

theorem soundCharacter (c : Option Char) : w.SoundReply P (.ok (Store.character c)) := by
  cases c with
  | none => trivial
  | some c => exact soundString _

theorem soundElementAt (sound : w.Sound P) (b : Builtin) (v place : Value) {xs : List Value} {i : Nat}
    (h : w.store.elementAt b v place = .ok (xs, i)) : ∀ u ∈ xs, w.Ordinary u := by
  unfold Store.elementAt at h
  split at h
  · next ys found =>
    split at h
    · split at h
      · cases h
        exact elements sound found
      · cases h
    · cases h
  · cases h

theorem soundGet (sound : w.Sound P) (v place : Value) :
    w.SoundReply P (w.store.getReply v place) := by
  unfold Store.getReply
  cases same : w.store.elementAt .get v place with
  | error f => trivial
  | ok r =>
    obtain ⟨xs, i⟩ := r
    exact elementOrNull (soundElementAt sound .get v place same) fun u there =>
      List.mem_of_getElem? there

theorem soundInsert (sound : w.Sound P) (v place : Value) {new : Value} (fine : w.Ordinary new) :
    w.SoundReply P (w.store.insertReply v place new) := by
  unfold Store.insertReply
  cases same : w.store.elementAt .insert v place with
  | error f => trivial
  | ok r =>
    obtain ⟨xs, i⟩ := r
    refine soundArray fun u member => ?_
    rcases List.mem_or_eq_of_mem_set member with member | rfl
    · exact soundElementAt sound .insert v place same u member
    · exact fine

theorem soundLibrary (sound : w.Sound P) (b : Builtin) {args : List Value}
    (fine : ∀ v ∈ args, w.Ordinary v) : w.SoundReply P (w.store.libraryReply b args) := by
  unfold Store.libraryReply
  split
  · unfold Store.lengthReply
    split <;> first | exact soundNumber _ | trivial
  · unfold Store.headReply
    split
    · next found => exact elementOrNull (elements sound found) fun u => List.mem_of_mem_head?
    · exact soundCharacter _
    · trivial
  · unfold Store.tailReply
    split
    · next found => exact elementOrNull (elements sound found) fun u => List.mem_of_mem_getLast?
    · exact soundCharacter _
    · trivial
  · unfold Store.restReply
    split
    · trivial
    · next found => exact soundArray fun u member => elements sound found u (List.mem_cons_of_mem _ member)
    · split
      · trivial
      · exact soundString _
    · trivial
  · exact soundGet sound _ _
  · exact soundInsert sound _ _ (fine _ (by simp))
  · unfold Store.appendReply
    split
    · next found =>
      refine soundArray fun u member => ?_
      rcases List.mem_append.1 member with member | member
      · exact elements sound found u member
      · exact fine u (List.mem_cons_of_mem _ member)
    · trivial
  · unfold Store.emptyReply
    split <;> first | exact soundTruth _ | trivial
  · trivial

end World
end Baby
