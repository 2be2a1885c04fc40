import Baby.Proofs.Aliasing
import Baby.Proofs.Bisimilarity

/-! What an assignment does to a store, in full: which name or object it writes, what it leaves, and that the
name then reads back as the value. Whatever shares or contains what is the same throughout. -/
namespace Baby

/-! Slots -/

inductive Part where
  | element (i : Nat)
  | key (k : HashKey)
  | value (k : HashKey)
  | wrapped

def Object.part? : Object → Part → Option Value
  | .array xs, .element i => xs[i]?
  | .hash d, .key k => (d.get? k).map Entry.key
  | .hash d, .value k => (d.get? k).map Entry.value
  | .returned v, .wrapped => some v
  | _, _ => none

inductive Slot where
  | name (id : ScopeId) (name : String)
  | part (a : Addr) (part : Part)

namespace Store

def slot? (st : Store) : Slot → Option Value
  | .name id name => (st.scope id).names.get? name
  | .part a p => do (← st.objects[a]?).part? p

def There (st : Store) (v : Value) : Prop := ∀ a, v = .ref a → a < st.objects.size

def Layered (st : Store) : Prop := ∀ id around, (st.scope id).outer = some around → around < id

structure Closed (st : Store) : Prop where
  there : ∀ s v, st.slot? s = some v → st.There v
  layered : st.Layered

end Store

theorem World.Sound.part {P : Tree → Prop} {w : World} (sound : w.Sound P) {o : Object} {p : Part} {v : Value}
    (fine : w.SoundObject P o) (inside : o.part? p = some v) : w.store.There v := by
  cases o with
  | array xs =>
    cases p with
    | element i => exact (fine v (List.mem_of_getElem? inside)).there
    | _ => cases inside
  | hash d =>
    cases p with
    | key k =>
      obtain ⟨e, found, rfl⟩ := Option.map_eq_some_iff.1 inside
      intro a same
      exact sound.keys a ((fine k e found).1.2 a same)
    | value k =>
      obtain ⟨e, found, rfl⟩ := Option.map_eq_some_iff.1 inside
      exact (fine k e found).2.there
    | _ => cases inside
  | returned u =>
    cases p with
    | wrapped =>
      cases inside
      exact World.Ordinary.there fine
    | _ => cases inside
  | integer | string | closure | error => cases inside

theorem World.Sound.closed {P : Tree → Prop} {w : World} (sound : w.Sound P) : w.store.Closed := by
  constructor
  · intro s v held
    cases s with
    | name id name =>
      obtain ⟨scope, found, named⟩ := World.scopeFound held
      exact (sound.names id scope found name v named).there
    | part a p =>
      obtain ⟨o, found, inside⟩ := Option.bind_eq_some_iff.1 held
      exact sound.part (sound.objects a o found) inside
  · intro id around outer
    unfold Store.scope at outer
    cases found : w.store.scopes[id]? with
    | none =>
      rw [found] at outer
      cases outer
    | some s =>
      rw [found] at outer
      exact sound.outer id s found around outer

namespace Store

/-! Resolution -/

inductive Finds (st : Store) (name : String) : ScopeId → Option ScopeId → Prop where
  | here {id v} (held : st.Holds id name v) : Finds st name id (some id)
  | outward {id around found} (missing : ∀ v, ¬ st.Holds id name v)
      (outer : (st.scope id).outer = some around) (rest : Finds st name around found) : Finds st name id found
  | nowhere {id} (missing : ∀ v, ¬ st.Holds id name v) (outer : (st.scope id).outer = none) :
      Finds st name id none

section
variable {st st' : Store} {id owner : ScopeId} {name : String} {found found' : Option ScopeId}

theorem Finds.unique (h : Finds st name id found) (h' : Finds st name id found') : found = found' := by
  induction h with
  | here held =>
    cases h' with
    | here => rfl
    | outward missing | nowhere missing => exact absurd held (missing _)
  | outward missing outer _ ih =>
    cases h' with
    | here held => exact absurd held (missing _)
    | outward _ outer' rest =>
      rw [outer] at outer'
      cases outer'
      exact ih rest
    | nowhere _ outer' =>
      rw [outer] at outer'
      cases outer'
  | nowhere missing outer =>
    cases h' with
    | here held => exact absurd held (missing _)
    | outward _ outer' =>
      rw [outer] at outer'
      cases outer'
    | nowhere => rfl

theorem Finds.held (h : Finds st name id (some owner)) : ∃ v, st.Holds owner name v := by
  generalize same : some owner = found at h
  induction h with
  | here held =>
    cases same
    exact ⟨_, held⟩
  | outward _ _ _ ih => exact ih same
  | nowhere => cases same

theorem Finds.kept (h : Finds st name id found) (outers : ∀ j, (st'.scope j).outer = (st.scope j).outer)
    (names : ∀ j, (∃ v, st'.Holds j name v) ↔ ∃ v, st.Holds j name v) : Finds st' name id found := by
  have still {j : ScopeId} (missing : ∀ v, ¬ st.Holds j name v) (v : Value) : ¬ st'.Holds j name v := by
    intro held
    obtain ⟨u, before⟩ := (names j).1 ⟨v, held⟩
    exact missing u before
  induction h with
  | here held =>
    obtain ⟨u, after⟩ := (names _).2 ⟨_, held⟩
    exact .here after
  | outward missing outer _ ih => exact .outward (still missing) ((outers _).trans outer) ih
  | nowhere missing outer => exact .nowhere (still missing) ((outers _).trans outer)

theorem chainFinds (layered : st.Layered) {n : Nat} (small : id < n) :
    Finds st name id ((st.chainWithin n id).find? fun s => (st.scope s).names.contains name) := by
  induction n generalizing id with
  | zero => exact absurd small (Nat.not_lt_zero _)
  | succ n ih =>
    rw [chainWithin, List.find?_cons]
    cases has : (st.scope id).names.contains name with
    | true =>
      obtain ⟨v, held⟩ := Dict.containsGet.1 has
      exact .here held
    | false =>
      have missing (v : Value) : ¬ st.Holds id name v := by
        intro held
        rw [Dict.containsGet.2 ⟨v, held⟩] at has
        cases has
      cases around : (st.scope id).outer with
      | none => exact .nowhere missing around
      | some j =>
        have near : j < n := Nat.lt_of_lt_of_le (layered id j around) (Nat.le_of_lt_succ small)
        exact .outward missing around (ih near)

theorem resolveFinds (layered : st.Layered) (small : id < st.scopes.size) :
    Finds st name id (st.resolve id name) :=
  chainFinds layered small

theorem resolveIff (layered : st.Layered) (small : id < st.scopes.size) :
    st.resolve id name = found ↔ Finds st name id found :=
  ⟨fun same => same ▸ resolveFinds layered small, fun h => (resolveFinds layered small).unique h⟩

end

/-! Effects -/

structure Rebound (st : Store) (id : ScopeId) (name : String) (v : Value) (st' : Store) : Prop where
  size : st'.scopes.size = st.scopes.size
  outer : ∀ j, (st'.scope j).outer = (st.scope j).outer
  held : st'.Holds id name v
  others : ∀ j n, (j, n) ≠ (id, name) → ∀ u, st'.Holds j n u ↔ st.Holds j n u
  printed : st'.printed = st.printed

structure Rewritten (st : Store) (v : Value) (o : Option Object) (st' : Store) : Prop where
  here : st'.object? v = o
  others : ∀ u, u ≠ v → st'.object? u = st.object? u

inductive Effect where
  | bound
  | overwritten
  | rebound
  | refused
  deriving DecidableEq

/- What is true before an assignment, and of its answer and the store after it, in each case. Integers, strings,
arrays and hashes can be changed; of what cannot, a copy is the thing itself. -/
inductive Assigned (st : Store) (id : ScopeId) (name : String) (v : Value) :
    Effect → Option Fault × Store → Prop where
  | copied {u st'} (absent : Finds st name id none) (mutable : (st.tag v).isMutable = true)
      (fresh : st.object? u = none) (contents : st.Rewritten u (st.object? v) st')
      (binding : st.Rebound id name u st') (unshared : ∀ s, st'.slot? s = some u ↔ s = .name id name) :
      Assigned st id name v .bound (none, st')
  | shared {st'} (absent : Finds st name id none) (fixed : (st.tag v).isMutable = false)
      (objects : st'.objects = st.objects) (binding : st.Rebound id name v st') :
      Assigned st id name v .bound (none, st')
  | overwritten {owner held st'} (nearest : Finds st name id (some owner)) (bound : st.Holds owner name held)
      (same : st.tag held = st.tag v) (mutable : (st.tag v).isMutable = true)
      (contents : st.Rewritten held (st.object? v) st') (scopes : st'.scopes = st.scopes)
      (printed : st'.printed = st.printed)
      (referring : ∀ s, (∀ a p, s = .part a p → held ≠ .ref a) → st'.slot? s = st.slot? s) :
      Assigned st id name v .overwritten (none, st')
  | rebound {owner held st'} (nearest : Finds st name id (some owner)) (bound : st.Holds owner name held)
      (same : st.tag held = st.tag v) (fixed : (st.tag v).isMutable = false)
      (objects : st'.objects = st.objects) (binding : st.Rebound owner name v st') :
      Assigned st id name v .rebound (none, st')
  | refused {owner held} (nearest : Finds st name id (some owner)) (bound : st.Holds owner name held)
      (other : st.tag held ≠ st.tag v) :
      Assigned st id name v .refused (some (.wrongType name (st.tag v) (st.tag held)), st)

section
variable {st st' : Store} {id j owner : ScopeId} {name n : String} {v u held : Value} {o : Object}

theorem tagObject (mutable : (st.tag v).isMutable = true) :
    ∃ a o, v = .ref a ∧ st.objects[a]? = some o ∧ o.tag = st.tag v := by
  cases v with
  | ref a =>
    cases found : st.objects[a]? with
    | none => simp [tag, found, Tag.isMutable] at mutable
    | some o => exact ⟨a, o, rfl, found, by simp [tag, found]⟩
  | _ => cases mutable

theorem copyMutable (mutable : (st.tag v).isMutable = true) :
    ∃ o, st.object? v = some o ∧ st.copy v = st.alloc o := by
  obtain ⟨a, o, rfl, found, same⟩ := tagObject mutable
  have object : st.object? (.ref a) = some o := found
  exact ⟨o, object, by simp [copy, object, same, mutable]⟩

theorem copyFixed (fixed : (st.tag v).isMutable = false) : st.copy v = (v, st) := by
  rcases World.copyCases st v with ⟨o, found, mutable, _⟩ | ⟨_, same⟩
  · cases v with
    | ref a =>
      have object : st.objects[a]? = some o := found
      simp [tag, object, mutable] at fixed
    | _ => cases found
  · exact same

theorem bindRebound (small : id < st.scopes.size) : st.Rebound id name v (st.bind id name v) := by
  have there := Array.getElem?_eq_getElem small
  constructor
  · simp [bind]
  · intro j
    simp only [scope, World.bindScope]
    split
    · cases st.scopes[j]? <;> rfl
    · rfl
  · have after : (st.bind id name v).scopes[id]? =
        some { st.scopes[id] with names := st.scopes[id].names.put name v } := by
      simp [World.bindScope, there]
    exact (holdsFound after).2 (Dict.getPutSelf ..)
  · intro j n other u
    constructor
    · intro after
      rcases bindHolds after with ⟨rfl, rfl, _⟩ | before
      · exact absurd rfl other
      · exact before
    · intro before
      exact bindHoldsOther before other.symm
  · rfl

theorem Rebound.names (h : st.Rebound id name v st') (before : ∃ u, st.Holds id name u) (j : ScopeId) :
    (∃ u, st'.Holds j name u) ↔ ∃ u, st.Holds j name u := by
  by_cases here : j = id
  · subst here
    exact ⟨fun _ => before, fun _ => ⟨v, h.held⟩⟩
  · have other : (j, name) ≠ (id, name) := fun same => here (congrArg Prod.fst same)
    exact exists_congr (h.others j name other)

theorem writeRewritten {a : Addr} (small : a < st.objects.size) :
    st.Rewritten (.ref a) (some o) (st.write a o) := by
  constructor
  · simp [write, object?, small]
  · intro u other
    cases u with
    | ref b => exact objectWriteOther st o fun same => other (same ▸ rfl)
    | _ => rfl

theorem allocRewritten (st : Store) (o : Object) :
    st.Rewritten (.ref st.objects.size) (some o) (st.alloc o).2 := by
  constructor
  · exact objectAlloc st o
  · intro u other
    cases u with
    | ref b =>
      have apart : b ≠ st.objects.size := fun same => other (same ▸ rfl)
      simp [alloc, object?, Array.getElem?_push, apart]
    | _ => rfl

theorem overwriteSame (same : st.tag held = st.tag v) (mutable : (st.tag v).isMutable = true) :
    ∃ a o, held = .ref a ∧ a < st.objects.size ∧ st.object? v = some o ∧
      st.overwrite held v = st.write a o := by
  obtain ⟨_, new, rfl, found, tags⟩ := tagObject mutable
  obtain ⟨a, old, rfl, found', tags'⟩ := tagObject (same ▸ mutable)
  have first : st.object? (.ref a) = some old := found'
  have second : st.object? (.ref _) = some new := found
  have one : old.tag = new.tag := by rw [tags', same, tags]
  have changes : new.tag.isMutable = true := tags ▸ mutable
  refine ⟨a, new, rfl, (Array.getElem?_eq_some_iff.1 found').1, second, ?_⟩
  simp [overwrite, first, second, one, changes]

theorem Rewritten.slots {x : Option Object} (h : st.Rewritten held x st') (scopes : st'.scopes = st.scopes)
    (s : Slot) (outside : ∀ a p, s = .part a p → held ≠ .ref a) : st'.slot? s = st.slot? s := by
  cases s with
  | name j n => simp only [slot?, scope, scopes]
  | part a p =>
    have same : st'.objects[a]? = st.objects[a]? := h.others (.ref a) (outside a p rfl).symm
    simp only [slot?, same]

/- Nothing refers to what is not there yet, and a copy contains only what the original does. -/
theorem copyUnshared (closed : st.Closed) (found : st.object? v = some o)
    (binding : (st.alloc o).2.Rebound id name (.ref st.objects.size) st')
    (objects : st'.objects = st.objects.push o) (s : Slot) :
    st'.slot? s = some (.ref st.objects.size) ↔ s = .name id name := by
  have before (s : Slot) : st.slot? s ≠ some (.ref st.objects.size) := by
    intro held
    exact Nat.lt_irrefl _ (closed.there s _ held _ rfl)
  constructor
  · intro held
    cases s with
    | name j n =>
      by_cases same : (j, n) = (id, name)
      · cases same
        rfl
      · exact absurd ((binding.others j n same _).1 held) (before (.name j n))
    | part a p =>
      simp only [slot?, objects, Array.getElem?_push] at held
      split at held
      · cases v with
        | ref b =>
          have there : st.objects[b]? = some o := found
          refine absurd ?_ (before (.part b p))
          simpa only [slot?, there] using held
        | _ => cases found
      · exact absurd held (before (.part a p))
  · intro same
    cases same
    exact binding.held

/-! The effect of an assignment -/

theorem assignNew (closed : st.Closed) (small : id < st.scopes.size) (absent : Finds st name id none) :
    Assigned st id name v .bound (st.assign id name v) := by
  have unresolved := (resolveIff closed.layered small).2 absent
  have new : st.assign id name v = (none, (st.copy v).2.bind id name (st.copy v).1) := by
    simp only [assign, unresolved]
  rw [new]
  cases mutable : (st.tag v).isMutable with
  | true =>
    obtain ⟨o, found, copied⟩ := copyMutable mutable
    rw [copied]
    have binding : (st.alloc o).2.Rebound id name (.ref st.objects.size)
        ((st.alloc o).2.bind id name (.ref st.objects.size)) := bindRebound small
    have contents := allocRewritten st o
    rw [← found] at contents
    apply Assigned.copied absent mutable (u := .ref st.objects.size)
    · simp [object?]
    · exact ⟨contents.here, contents.others⟩
    · exact ⟨binding.size, binding.outer, binding.held, binding.others, binding.printed⟩
    · exact copyUnshared closed found binding rfl
  | false =>
    rw [copyFixed mutable]
    exact .shared absent mutable rfl (bindRebound small)

theorem assignOwned (resolved : st.resolve id name = some owner) (bound : st.Holds owner name held) :
    st.assign id name v =
      if st.tag held ≠ st.tag v then (some (.wrongType name (st.tag v) (st.tag held)), st)
      else if (st.tag held).isMutable then (none, st.overwrite held v)
      else (none, st.bind owner name v) := by
  have there : (st.scope owner).names.get? name = some held := bound
  simp only [assign, resolved, there]

theorem assignHeld (closed : st.Closed) (small : id < st.scopes.size) (nearest : Finds st name id (some owner))
    (bound : st.Holds owner name held) : ∃ e, Assigned st id name v e (st.assign id name v) := by
  rw [assignOwned ((resolveIff closed.layered small).2 nearest) bound]
  by_cases same : st.tag held = st.tag v
  · rw [if_neg (not_not_intro same), same]
    cases mutable : (st.tag v).isMutable with
    | true =>
      obtain ⟨a, o, rfl, there, found, written⟩ := overwriteSame same mutable
      have contents := writeRewritten (o := o) there
      rw [← found, ← written] at contents
      have scopes := overwriteScopes st (.ref a) v
      have printed : (st.overwrite (.ref a) v).printed = st.printed := by
        rw [written]
        rfl
      exact ⟨_, .overwritten nearest bound same mutable contents scopes printed (contents.slots scopes)⟩
    | false =>
      obtain ⟨s, found, _⟩ := World.scopeFound bound
      have there := (Array.getElem?_eq_some_iff.1 found).1
      exact ⟨_, .rebound nearest bound same mutable rfl (bindRebound there)⟩
  · rw [if_pos same]
    exact ⟨_, .refused nearest bound same⟩

theorem assignAssigned (closed : st.Closed) (small : id < st.scopes.size) :
    ∃ e, Assigned st id name v e (st.assign id name v) := by
  have walk : Finds st name id (st.resolve id name) := resolveFinds closed.layered small
  cases resolved : st.resolve id name with
  | none => exact ⟨_, assignNew closed small (resolved ▸ walk)⟩
  | some owner =>
    rw [resolved] at walk
    obtain ⟨held, bound⟩ := walk.held
    exact assignHeld closed small walk bound

variable {e e' : Effect} {r r' : Option Fault × Store}

theorem Assigned.when (h : Assigned st id name v e r) :
    (Finds st name id none ∧ e = .bound) ∨
      ∃ owner held, Finds st name id (some owner) ∧ st.Holds owner name held ∧
        e = if st.tag held ≠ st.tag v then .refused
          else if (st.tag v).isMutable then .overwritten else .rebound := by
  cases h with
  | copied absent | shared absent => exact .inl ⟨absent, rfl⟩
  | overwritten nearest bound same mutable =>
    exact .inr ⟨_, _, nearest, bound, by simp [same, mutable]⟩
  | rebound nearest bound same fixed => exact .inr ⟨_, _, nearest, bound, by simp [same, fixed]⟩
  | refused nearest bound other => exact .inr ⟨_, _, nearest, bound, by simp [other]⟩

theorem Assigned.unique (h : Assigned st id name v e r) (h' : Assigned st id name v e' r') : e = e' := by
  rcases h.when with ⟨absent, rfl⟩ | ⟨owner, held, nearest, bound, rfl⟩
  · rcases h'.when with ⟨_, rfl⟩ | ⟨_, _, nearest, _⟩
    · rfl
    · cases absent.unique nearest
  · rcases h'.when with ⟨absent, _⟩ | ⟨owner', held', nearest', bound', rfl⟩
    · cases absent.unique nearest
    · cases nearest.unique nearest'
      cases Option.some.inj (bound.symm.trans bound')
      rfl

/-! Reading back -/

theorem contentsEqual (left : st.object? u = some o) (right : st.object? v = some o)
    (mutable : o.tag.isMutable = true) : st.equal u v = true := by
  have bisimulation : st.Bisimulation fun a b => a = b ∨ a = u ∧ b = v := by
    intro a b related
    rcases related with rfl | ⟨rfl, rfl⟩
    · exact .same a
    · cases o with
      | integer => exact .integer left right
      | string => exact .string left right
      | array xs =>
        apply Alike.array left right rfl
        intro p member
        obtain ⟨i, there⟩ := List.mem_iff_getElem?.1 member
        obtain ⟨first, second⟩ := List.getElem?_zip_eq_some.1 there
        exact .inl (Option.some.inj (first.symm.trans second))
      | hash d =>
        apply Alike.hash left right (fun _ => Iff.rfl)
        intro k p q found found'
        cases Option.some.inj (found.symm.trans found')
        exact .inl rfl
      | closure | returned | error => cases mutable
  exact bisimulationEqual bisimulation (.inr ⟨rfl, rfl⟩)

theorem Rewritten.equal (h : st.Rewritten u (st.object? v) st') (mutable : (st.tag v).isMutable = true) :
    st'.equal u v = true := by
  obtain ⟨a, o, rfl, there, tags⟩ := tagObject mutable
  have found : st.object? (.ref a) = some o := there
  by_cases same : .ref a = u
  · subst same
    exact equalSelf ..
  · exact contentsEqual (h.here.trans found) ((h.others _ same).trans found) (tags ▸ mutable)

theorem lookupFinds (layered : st.Layered) (small : id < st.scopes.size)
    (nearest : Finds st name id (some owner)) (bound : st.Holds owner name u) : st.lookup id name = some u := by
  rw [lookup, (resolveIff layered small).2 nearest]
  exact bound

theorem Rebound.lookup (h : st.Rebound owner name u st') (closed : st.Closed) (small : id < st.scopes.size)
    (nearest : Finds st' name id (some owner)) : st'.lookup id name = some u := by
  apply lookupFinds _ (h.size.symm ▸ small) nearest h.held
  intro j around outer
  exact closed.layered j around ((h.outer j).symm.trans outer)

theorem Assigned.readsBack (h : Assigned st id name v e (none, st')) (closed : st.Closed)
    (small : id < st.scopes.size) : ∃ u, st'.lookup id name = some u ∧ st'.equal u v = true := by
  cases h with
  | copied _ mutable _ contents binding =>
    exact ⟨_, binding.lookup closed small (.here binding.held), contents.equal mutable⟩
  | shared _ _ _ binding => exact ⟨v, binding.lookup closed small (.here binding.held), equalSelf st' v⟩
  | @overwritten owner held _ nearest bound _ mutable contents scopes =>
    have alike (j : ScopeId) : st'.scope j = st.scope j := by simp only [scope, scopes]
    have still : Finds st' name id (some owner) := by
      apply nearest.kept
      · intro j
        rw [alike]
      · intro j
        simp only [holdsSame scopes]
    have read : st'.lookup id name = some held := by
      apply lookupFinds _ _ still ((holdsSame scopes).2 bound)
      · intro j around outer
        rw [alike] at outer
        exact closed.layered j around outer
      · rw [scopes]
        exact small
    exact ⟨held, read, contents.equal mutable⟩
  | rebound nearest bound _ _ _ binding =>
    have still := nearest.kept binding.outer (binding.names ⟨_, bound⟩)
    exact ⟨v, binding.lookup closed small still, equalSelf st' v⟩

end

/-- An assignment does exactly one of four things, and says in full what it writes and what it leaves. A name
that is nowhere is bound to a copy; an object of the same type that can be changed takes the contents; one that
cannot gives way to the value where the name was found; and a value of another type is refused. Unless it is
refused, the name then reads as something equal to the value. -/
theorem assignEffect (st : Store) (id : ScopeId) (name : String) (v : Value) (closed : st.Closed)
    (small : id < st.scopes.size) :
    (∃! e, Assigned st id name v e (st.assign id name v)) ∧
      ((st.assign id name v).1 = none →
        ∃ u, (st.assign id name v).2.lookup id name = some u ∧
          (st.assign id name v).2.equal u v = true) := by
  obtain ⟨e, done⟩ : ∃ e, Assigned st id name v e (st.assign id name v) := assignAssigned closed small
  constructor
  · exact ⟨e, done, fun _ other => other.unique done⟩
  · intro accepted
    have answer : st.assign id name v = (none, (st.assign id name v).2) := by rw [← accepted]
    rw [answer] at done
    exact done.readsBack closed small

theorem closedReached {s : Session} (h : s.Reachable fun _ => True) : s.store.Closed := by
  obtain ⟨w, shows⟩ := Session.reachableShows everyTree h
  rw [← shows.store]
  exact shows.live.sound.closed

-- One array in another, each behind a name, and a scope inside the one that has the names.
def nestedArrays : String := "let x = []; let y = [x]; let f = fun() \x7b\x7d; f()"

theorem assignEffectNested :
    (∃! e, Assigned (Session.new.run nestedArrays).2.store 1 "x" (.ref 3) e
      ((Session.new.run nestedArrays).2.store.assign 1 "x" (.ref 3))) ∧
    ((Session.new.run nestedArrays).2.store.assign 1 "x" (.ref 3)).2.lookup 1 "x" = some (.ref 1) ∧
    ((Session.new.run nestedArrays).2.store.assign 1 "x" (.ref 3)).2.equal (.ref 1) (.ref 3) = true := by
  have reached : (Session.new.run nestedArrays).2.Reachable fun _ => True :=
    ⟨.standard, .tail .refl (.run nestedArrays fun _ _ => trivial)⟩
  obtain ⟨small, accepted, read⟩ : 1 < (Session.new.run nestedArrays).2.store.scopes.size ∧
      ((Session.new.run nestedArrays).2.store.assign 1 "x" (.ref 3)).1 = none ∧
      ((Session.new.run nestedArrays).2.store.assign 1 "x" (.ref 3)).2.lookup 1 "x" = some (.ref 1) := by
    decide +kernel
  obtain ⟨one, reads⟩ := assignEffect _ 1 "x" (.ref 3) (closedReached reached) small
  obtain ⟨u, found, equal⟩ := reads accepted
  cases found.symm.trans read
  exact ⟨one, read, equal⟩

end Store
end Baby
