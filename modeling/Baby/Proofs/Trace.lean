import Baby.Proofs.Acts
import Baby.Proofs.Traced

/-! The shape of logs. A trace is a log with its structure: trees inside trees, activations inside
trees, and acts that are admissible where they are done. A path is the same log read from left to
right, with nothing left of the structure but where it may write. -/
namespace Baby

def stopOf {α : Type} : Except Stop α → Option Stop
  | .ok _ => none
  | .error stop => some stop

def handed : Except Stop (Option Value) → Except Stop (Option Value)
  | .error (.returned _ v) => .ok (some v)
  | r => r

theorem handedTwice (r : Except Stop (Option Value)) : handed (handed r) = handed r := by
  rcases r with stop | v
  · cases stop <;> rfl
  · rfl

theorem handedFault {r : Except Stop (Option Value)} {a : Addr} {f : Fault}
    (h : stopOf (handed r) = some (.fault a f)) : stopOf r = some (.fault a f) := by
  rcases r with stop | v
  · cases stop <;> simp_all [handed, stopOf]
  · exact h

theorem handedReturned {r : Except Stop (Option Value)} {a : Addr} {v : Value} :
    stopOf (handed r) ≠ some (.returned a v) := by
  rcases r with stop | v
  · cases stop <;> simp [handed, stopOf]
  · simp [handed, stopOf]

def Act.IsPlain : Act → Prop
  | .alloc o => o.tag.isMarker = false
  | _ => True

/-- Logs of evaluations in the scope `id`, if they are in one, the nearest tree around them being
`t`. -/
inductive Trace (P : Tree → Prop) :
    Option ScopeId → Tree → World → List Event → World → Option Stop → Prop where
  | none {id t w} : Trace P id t w [] w none
  | cut {id t w stop} (limit : stop.isLimit = true) : Trace P id t w [] w (some stop)
  | seq {id t w w₁ w₂ l l' stop} (first : Trace P id t w l w₁ .none)
      (second : Trace P id t w₁ l' w₂ stop) : Trace P id t w (l ++ l') w₂ stop
  | act {id t w act} (fine : w.Admissible P id t act) (plain : act.IsPlain) :
      Trace P id t w [.did act (w.after act).store] (w.after act) .none
  | fail {id t w} (f : Fault) :
      Trace P id t w [.did (.alloc (.error f)) (w.after (.alloc (.error f))).store]
        (w.after (.alloc (.error f))) (some (.fault w.store.objects.size f))
  | leave {id t w v} (fine : w.Ordinary v) :
      Trace P (some id) t w [.did (.alloc (.returned v)) (w.after (.alloc (.returned v))).store]
        (w.after (.alloc (.returned v))) (some (.returned w.store.objects.size v))
  | node {id t u w w' l r} (known : P u) (inner : Trace P (some id) u w l w' (stopOf r))
      (given : ∀ v, r = .ok (some v) → w'.Ordinary v) :
      Trace P (some id) t w (.entered id u w.store :: l ++ [.left id u r w'.store]) w' (stopOf r)
  | call {id t w w₁ w' home params args l r}
      (fine : w.Admissible P id t (.enter home params args))
      (start : w₁ = w.after (.enter home params args))
      (inner : Trace P (some w.store.scopes.size) .missing w₁ l w' (stopOf r))
      (given : ∀ v, handed r = .ok (some v) → w'.Ordinary v) :
      Trace P id t w
        (.did (.enter home params args) w₁.store :: .called w.store.scopes.size w₁.store :: l ++
          [.answered w.store.scopes.size (handed r) w'.store]) w' (stopOf (handed r))
  | program {id t w w' l r body line} (known : P (.program body line))
      (inner : Trace P (some id) t w l w' (stopOf r))
      (given : ∀ v, handed r = .ok (some v) → w'.Ordinary v) :
      Trace P (some id) t w (.called id w.store :: l ++ [.answered id (handed r) w'.store]) w'
        (stopOf (handed r))

/-! Paths -/

def Event.isAct : Event → Bool
  | .did .. => true
  | _ => false

inductive Path (P : Tree → Prop) (own : ScopeId → Prop) : World → List Event → World → Prop where
  | nil {w} : Path P own w [] w
  | quiet {w w' e l} (still : e.isAct = false) (same : e.store = w.store) (rest : Path P own w l w') :
      Path P own w (e :: l) w'
  | act {w w' id t act l} (mine : ∀ j, id = some j → own j) (fine : w.Admissible P id t act)
      (rest : Path P own (w.after act) l w') :
      Path P own w (.did act (w.after act).store :: l) w'

namespace Path
variable {P : Tree → Prop} {own own' : ScopeId → Prop} {w w₁ w₂ : World} {l l' : List Event}

theorem append (h : Path P own w l w₁) (k : Path P own w₁ l' w₂) : Path P own w (l ++ l') w₂ := by
  induction h with
  | nil => exact k
  | quiet still same _ ih => exact .quiet still same (ih k)
  | act mine fine _ ih => exact .act mine fine (ih k)

theorem mono (h : Path P own w l w₁) (more : ∀ id, own id → own' id) : Path P own' w l w₁ := by
  induction h with
  | nil => exact .nil
  | quiet still same _ ih => exact .quiet still same ih
  | act mine fine _ ih => exact .act (fun j same => more j (mine j same)) fine ih

theorem split (h : Path P own w (l ++ l') w₂) :
    ∃ w₁, Path P own w l w₁ ∧ Path P own w₁ l' w₂ := by
  induction l generalizing w with
  | nil => exact ⟨w, .nil, h⟩
  | cons e l ih =>
    cases h with
    | quiet still same rest =>
      obtain ⟨w₁, first, second⟩ := ih rest
      exact ⟨w₁, .quiet still same first, second⟩
    | act mine fine rest =>
      obtain ⟨w₁, first, second⟩ := ih rest
      exact ⟨w₁, .act mine fine first, second⟩

theorem lastStore {e : Event} (h : Path P own w (l ++ [e]) w₁) : w₁.store = e.store := by
  obtain ⟨w', _, last⟩ := h.split
  cases last with
  | quiet _ same rest =>
    cases rest
    exact same.symm
  | act _ _ rest =>
    cases rest
    rfl

theorem moment {e : Event} (h : Path P own w (l ++ e :: l') w₂) :
    ∃ w₁, w₁.store = e.store ∧ Path P own w (l ++ [e]) w₁ := by
  rw [List.append_cons] at h
  obtain ⟨w₁, first, _⟩ := h.split
  exact ⟨w₁, first.lastStore, first⟩

def Rebound (l : List Event) (id : ScopeId) (name : String) : Prop :=
  ∃ v st, Event.did (.bind id name v) st ∈ l

theorem later (h : Path P own w l w₁) (sound : w.Sound P) :
    w.Later own (Rebound l) w₁ ∧ w₁.Sound P := by
  induction h with
  | nil => exact ⟨.refl _, sound⟩
  | quiet _ _ _ ih =>
    obtain ⟨later, sound'⟩ := ih sound
    refine ⟨later.weaken (fun _ _ h => h) ?_, sound'⟩
    rintro id name _ _ ⟨v, st, member⟩
    exact ⟨v, st, List.mem_cons_of_mem _ member⟩
  | @act w w' id t act l mine fine _ ih =>
    obtain ⟨later, sound'⟩ := ih (World.actSound sound fine)
    have first : w.Later own (Rebound (.did act (w.after act).store :: l)) (w.after act) := by
      refine (World.actLater sound fine).weaken (fun j _ same => mine j same) ?_
      rintro j name _ _ again
      cases act with
      | bind _ n v =>
        obtain ⟨rfl, rfl⟩ := again
        exact ⟨v, _, List.mem_cons_self⟩
      | _ => exact again.elim
    refine ⟨first.trans (later.weaken (fun _ _ h => h) ?_), sound'⟩
    rintro id name _ _ ⟨v, st, member⟩
    exact ⟨v, st, List.mem_cons_of_mem _ member⟩

end Path

def World.Reaches (w : World) (id : Option ScopeId) (j : ScopeId) : Prop :=
  id = some j ∨ w.store.scopes.size ≤ j

theorem Trace.path {P : Tree → Prop} {id : Option ScopeId} {t : Tree} {w w' : World} {l : List Event}
    {stop : Option Stop} (h : Trace P id t w l w' stop) (sound : w.Sound P) :
    Path P (w.Reaches id) w l w' := by
  induction h with
  | none | cut => exact .nil
  | seq _ _ ih ih' =>
    have first := ih sound
    obtain ⟨later, sound₁⟩ := first.later sound
    refine first.append ((ih' sound₁).mono fun j reach => ?_)
    exact reach.imp_right (Nat.le_trans later.scopesSize)
  | act fine _ => exact .act (fun _ => .inl) fine .nil
  | @fail id t w f =>
    have fine : w.Admissible P id t (.alloc (.error f)) := trivial
    exact .act (fun _ => .inl) fine .nil
  | @leave id t w v ordinary =>
    have fine : w.Admissible P (some id) t (.alloc (.returned v)) := ordinary
    exact .act (fun _ => .inl) fine .nil
  | node _ _ _ ih =>
    exact .quiet rfl rfl ((ih sound).append (.quiet rfl rfl .nil))
  | @call id t w w₁ w' home params args l r fine start _ _ ih =>
    subst start
    have inside := ih (World.actSound sound fine)
    have size := (World.actLater sound fine).scopesSize
    refine .act (fun _ => .inl) fine (.quiet rfl rfl ((inside.mono fun j reach => .inr ?_).append
      (.quiet rfl rfl .nil)))
    rcases reach with same | more
    · exact Nat.le_of_eq (Option.some.inj same)
    · exact Nat.le_trans size more
  | program _ _ _ ih =>
    exact .quiet rfl rfl ((ih sound).append (.quiet rfl rfl .nil))

namespace Trace
variable {P : Tree → Prop} {id : Option ScopeId} {t : Tree} {w w' : World} {l : List Event}
  {stop : Option Stop}

theorem sound (h : Trace P id t w l w' stop) (sound : w.Sound P) : w'.Sound P :=
  ((h.path sound).later sound).2

theorem later (h : Trace P id t w l w' stop) (sound : w.Sound P) :
    w.Later (w.Reaches id) (Path.Rebound l) w' :=
  ((h.path sound).later sound).1

theorem stopped (h : Trace P id t w l w' stop) (sound : w.Sound P) :
    (∀ a f, stop = some (.fault a f) → w'.store.objects[a]? = some (.error f)) ∧
      ∀ a v, stop = some (.returned a v) → w'.store.objects[a]? = some (.returned v) := by
  induction h with
  | none | act => simp
  | cut limit =>
    constructor
    · rintro a f ⟨⟩
      cases limit
    · rintro a v ⟨⟩
      cases limit
  | seq first _ _ ih => exact ih (first.sound sound)
  | fail f =>
    refine ⟨?_, by simp⟩
    rintro a f' ⟨⟩
    simp [Act.run]
  | leave fine =>
    refine ⟨by simp, ?_⟩
    rintro a v ⟨⟩
    simp [Act.run]
  | node _ _ _ ih => exact ih sound
  | call fine start _ _ ih =>
    subst start
    obtain ⟨faults, _⟩ := ih (World.actSound sound fine)
    exact ⟨fun a f same => faults a f (handedFault same), fun a v same => absurd same handedReturned⟩
  | program _ _ _ ih =>
    obtain ⟨faults, _⟩ := ih sound
    exact ⟨fun a f same => faults a f (handedFault same), fun a v same => absurd same handedReturned⟩

theorem returned (h : Trace P id t w l w' stop) (sound : w.Sound P) {a : Addr} {v : Value}
    (same : stop = some (.returned a v)) : w'.Ordinary v :=
  (h.sound sound).objects a _ ((h.stopped sound).2 a v same)

end Trace
end Baby
