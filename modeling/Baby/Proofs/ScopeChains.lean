import Baby.Proofs.Assignment

/-! Scope chains. A scope is opened inside one that is there already, and stays inside it. So going outward comes
to an end, though scopes hold functions, and functions scopes, in circles. -/
namespace Baby

/-! Chains -/

namespace Store

def Outer (st : Store) (id around : ScopeId) : Prop := (st.scope id).outer = some around

def OnChain (st : Store) : ScopeId → ScopeId → Prop := Relation.ReflTransGen st.Outer

structure Nearest (st : Store) (name : String) (id owner : ScopeId) : Prop where
  onChain : st.OnChain id owner
  held : ∃ v, st.Holds owner name v
  inmost : ∀ j v, st.OnChain id j → st.Holds j name v → st.OnChain owner j

section
variable {st : Store} {id j around owner : ScopeId} {name : String}

theorem Layered.wellFounded (layered : st.Layered) : WellFounded fun around id => st.Outer id around :=
  Subrelation.wf (fun outer => layered _ _ outer) Nat.lt_wfRel.wf

theorem OnChain.le (h : st.OnChain id j) (layered : st.Layered) : j ≤ id := by
  induction h with
  | refl => exact Nat.le_refl id
  | tail _ outer ih => exact Nat.le_trans (Nat.le_of_lt (layered _ _ outer)) ih

theorem OnChain.beyond (h : st.OnChain id j) (outer : st.Outer id around) (other : j ≠ id) :
    st.OnChain around j := by
  rcases h.cases_head with same | ⟨_, outer', rest⟩
  · exact absurd same.symm other
  · cases Option.some.inj (outer.symm.trans outer')
    exact rest

theorem Finds.absent (h : Finds st name id none) (onChain : st.OnChain id j) (v : Value) :
    ¬ st.Holds j name v := by
  generalize none : (none : Option ScopeId) = found at h
  induction h with
  | here => cases none
  | @outward id around found missing outer _ ih =>
    by_cases here : j = id
    · subst here
      exact missing v
    · exact ih (onChain.beyond outer here) none
  | @nowhere id missing outer =>
    rcases onChain.cases_head with rfl | ⟨_, outer', _⟩
    · exact missing v
    · cases outer.symm.trans outer'

theorem Finds.nearest (h : Finds st name id (some owner)) : st.Nearest name id owner := by
  generalize some' : some owner = found at h
  induction h with
  | here held =>
    cases some'
    exact ⟨.refl, ⟨_, held⟩, fun _ _ onChain _ => onChain⟩
  | @outward id around found missing outer _ ih =>
    obtain ⟨onChain, held, inmost⟩ := ih some'
    refine ⟨.head outer onChain, held, fun j v further held' => ?_⟩
    have other : j ≠ id := by
      rintro rfl
      exact missing v held'
    exact inmost j v (further.beyond outer other) held'
  | nowhere => cases some'

theorem Nearest.unique {owner' : ScopeId} (layered : st.Layered) (h : st.Nearest name id owner)
    (h' : st.Nearest name id owner') : owner = owner' := by
  obtain ⟨v, held⟩ := h.held
  obtain ⟨v', held'⟩ := h'.held
  have inside : st.OnChain owner owner' := h.inmost owner' v' h'.onChain held'
  have outside : st.OnChain owner' owner := h'.inmost owner v h.onChain held
  exact Nat.le_antisymm (outside.le layered) (inside.le layered)

theorem resolveNearest (layered : st.Layered) (small : id < st.scopes.size) :
    st.resolve id name = some owner ↔ st.Nearest name id owner := by
  have walk : Finds st name id (st.resolve id name) := resolveFinds layered small
  constructor
  · intro resolved
    rw [resolved] at walk
    exact walk.nearest
  · intro nearest
    cases resolved : st.resolve id name with
    | none =>
      rw [resolved] at walk
      obtain ⟨v, held⟩ := nearest.held
      exact absurd held (walk.absent nearest.onChain v)
    | some owner' =>
      rw [resolved] at walk
      rw [walk.nearest.unique layered nearest]

theorem resolveAbsent (layered : st.Layered) (small : id < st.scopes.size) :
    st.resolve id name = none ↔ ∀ j, st.OnChain id j → ∀ v, ¬ st.Holds j name v := by
  have walk : Finds st name id (st.resolve id name) := resolveFinds layered small
  constructor
  · intro unresolved j onChain
    rw [unresolved] at walk
    exact walk.absent onChain
  · intro absent
    cases resolved : st.resolve id name with
    | none => rfl
    | some owner =>
      rw [resolved] at walk
      obtain ⟨onChain, ⟨v, held⟩, _⟩ := walk.nearest
      exact absurd held (absent owner onChain v)

end
end Store

/-! Histories -/

def scopeHistory (l : List Event) : List (Array Scope) :=
  (Store.empty.openScope none).2.scopes :: l.map fun e => e.store.scopes

def opened? (l : List Event) (id : ScopeId) : Option Nat := (scopeHistory l).findIdx? fun ss => id < ss.size

def OutersKept (ss ss' : Array Scope) : Prop :=
  ∀ (id : ScopeId) (scope : Scope), ss[id]? = some scope →
    ∃ scope', ss'[id]? = some scope' ∧ scope'.outer = scope.outer

/- The scopes that there are were opened one after the other, and are inside those they were opened in. -/
structure Grown (l : List Event) (ss : Array Scope) : Prop where
  kept : ∀ before ∈ scopeHistory l, OutersKept before ss
  opened : ∀ id, id < ss.size → ∃ i, opened? l id = some i
  order : ∀ id j around i, opened? l id = some j → around < id → opened? l around = some i → i < j

section
variable {l : List Event} {e : Event} {ss ss' ss₁ : Array Scope} {id : ScopeId}

theorem OutersKept.refl (ss : Array Scope) : OutersKept ss ss := fun _ scope found => ⟨scope, found, rfl⟩

theorem OutersKept.trans (h : OutersKept ss ss') (k : OutersKept ss' ss₁) : OutersKept ss ss₁ := by
  intro id scope found
  obtain ⟨scope', found', same⟩ := h id scope found
  obtain ⟨scope₁, found₁, same'⟩ := k id scope' found'
  exact ⟨scope₁, found₁, same'.trans same⟩

theorem OutersKept.there (h : OutersKept ss ss') (there : id < ss.size) : id < ss'.size := by
  obtain ⟨_, found, _⟩ := h id _ (Array.getElem?_eq_getElem there)
  exact (Array.getElem?_eq_some_iff.1 found).1

theorem historyMore (l : List Event) (e : Event) :
    scopeHistory (l ++ [e]) = scopeHistory l ++ [e.store.scopes] := by
  simp [scopeHistory]

theorem openedMore (l : List Event) (e : Event) (id : ScopeId) :
    opened? (l ++ [e]) id =
      (opened? l id).or (if id < e.store.scopes.size then some (scopeHistory l).length else none) := by
  rw [opened?, historyMore, List.findIdx?_append]
  simp [opened?]

theorem openedBefore {i : Nat} (h : opened? l id = some i) :
    ∃ before ∈ scopeHistory l, id < before.size ∧ i < (scopeHistory l).length := by
  obtain ⟨early, there, _⟩ := List.findIdx?_eq_some_iff_getElem.1 h
  exact ⟨_, List.getElem_mem early, of_decide_eq_true there, early⟩

theorem Grown.first : Grown [] (Store.empty.openScope none).2.scopes := by
  have root (id : ScopeId) (i : Nat) (h : opened? [] id = some i) : id = 0 := by
    obtain ⟨before, member, there, _⟩ := openedBefore h
    cases List.mem_singleton.1 member
    exact Nat.lt_one_iff.1 there
  constructor
  · intro before member
    cases List.mem_singleton.1 member
    exact .refl _
  · intro id there
    cases Nat.lt_one_iff.1 there
    exact ⟨0, rfl⟩
  · intro id j around i opened inside _
    cases root id j opened
    exact absurd inside (Nat.not_lt_zero around)

theorem Grown.next (h : Grown l ss) (kept : OutersKept ss e.store.scopes)
    (size : e.store.scopes.size ≤ ss.size + 1) : Grown (l ++ [e]) e.store.scopes := by
  have kept' (before : Array Scope) (member : before ∈ scopeHistory (l ++ [e])) :
      OutersKept before e.store.scopes := by
    rw [historyMore] at member
    rcases List.mem_append.1 member with old | new
    · exact (h.kept before old).trans kept
    · cases List.mem_singleton.1 new
      exact .refl _
  refine ⟨kept', fun id there => ?_, fun id j around i opened inside opened' => ?_⟩
  · rw [openedMore, if_pos there]
    cases opened? l id with
    | none => exact ⟨_, rfl⟩
    | some i => exact ⟨i, rfl⟩
  · have there : id < e.store.scopes.size := by
      obtain ⟨before, member, small, _⟩ := openedBefore opened
      exact (kept' before member).there small
    have last : id ≤ ss.size := Nat.le_of_lt_succ (Nat.lt_of_lt_of_le there size)
    have near : around < ss.size := Nat.lt_of_lt_of_le inside last
    obtain ⟨i', early⟩ := h.opened around near
    rw [openedMore, early] at opened'
    cases opened'
    rw [openedMore, if_pos there] at opened
    cases old : opened? l id with
    | none =>
      rw [old] at opened
      cases opened
      obtain ⟨_, _, _, before⟩ := openedBefore early
      exact before
    | some j' =>
      rw [old] at opened
      cases opened
      exact h.order id j around i old inside early

end

/-! Sessions -/

theorem Store.assignSize (st : Store) (id : ScopeId) (name : String) (v : Value) :
    (st.assign id name v).2.scopes.size = st.scopes.size := by
  rcases World.assignCases st id name v with ⟨_, same⟩ | ⟨_, same⟩ |
    ⟨owner, held, _, _, _, ⟨_, same⟩ | ⟨_, same⟩⟩
  · rw [same]
  · rw [same]
    rcases World.copyCases st v with ⟨o, _, _, copied⟩ | ⟨_, copied⟩ <;> simp [copied, bind, alloc]
  · rw [same, overwriteScopes]
  · rw [same]
    simp [bind]

theorem Act.runSize (act : Act) (st : Store) : (act.run st).2.scopes.size ≤ st.scopes.size + 1 := by
  cases act with
  | alloc | print => exact Nat.le_succ _
  | copy v =>
    rcases World.copyCases st v with ⟨o, _, _, copied⟩ | ⟨_, copied⟩ <;> simp [run, copied, Store.alloc]
  | bind id name v => simp [run, Store.bind]
  | assign id name v => simp [run, Store.assignSize]
  | enter home params args => exact Nat.le_of_eq (World.enterSize st home params args)

theorem Path.grown {P : Tree → Prop} {own : ScopeId → Prop} {w w' : World} {l l' : List Event}
    (h : Path P own w l' w') (sound : w.Sound P) (grown : Grown l w.store.scopes) :
    Grown (l ++ l') w'.store.scopes := by
  induction h generalizing l with
  | nil =>
    rw [List.append_nil]
    exact grown
  | @quiet w w' e l' _ same _ ih =>
    rw [List.append_cons]
    rw [← same] at grown
    have next : Grown (l ++ [e]) e.store.scopes := grown.next (.refl _) (Nat.le_succ _)
    exact ih sound (same ▸ next)
  | @act w w' id t act l' _ fine _ ih =>
    rw [List.append_cons]
    have kept : OutersKept w.store.scopes (w.after act).store.scopes := by
      intro j scope found
      obtain ⟨scope', found', frame⟩ := (World.actLater sound fine).frame.scopes j scope found
      exact ⟨scope', found', frame.outer⟩
    exact ih (World.actSound sound fine) (grown.next kept (act.runSize w.store))

theorem Session.pastGrown {Q : String → Prop} {l : List Event} {s : Session} (past : Past Q l s) :
    ∃ w, s.Shows (fun _ => True) w ∧ Grown l s.store.scopes := by
  apply Past.holds (I := fun l st => Grown l st.scopes) everyTree _ .first _ _ past
  · intro source tree _ _
    trivial
  · intro own w w' l l' sound path _ grown
    exact path.grown sound grown
  · intro l st grown
    exact grown

/-- Scope chains are well founded in every state of a session. The scope around another was opened before it, and
has been around it at every moment since; the scope of every function is there. So going outward ends, and the
walk for a name, which nothing bounds, ends at what is resolved: the nearest scope on the chain that has the
name, or none just if none on the chain has it. -/
theorem scopeChainsEnd {l : List Event} {s : Session} (past : Session.Past (fun _ => True) l s) :
    (∀ (id : ScopeId) (scope : Scope), s.store.scopes[id]? = some scope →
      ∀ around, scope.outer = some around →
        ∃ i j, opened? l around = some i ∧ opened? l id = some j ∧ i < j) ∧
    (∀ before ∈ scopeHistory l, ∀ (id : ScopeId) (scope : Scope), before[id]? = some scope →
      ∃ scope', s.store.scopes[id]? = some scope' ∧ scope'.outer = scope.outer) ∧
    (∀ (a : Addr) (params : List String) (body : Tree) (home : ScopeId),
      s.store.objects[a]? = some (.closure params body home) → home < s.store.scopes.size) ∧
    (WellFounded fun around id => s.store.Outer id around) ∧
    ∀ id, id < s.store.scopes.size → ∀ name,
      s.store.Finds name id (s.store.resolve id name) ∧
      (∀ owner, s.store.resolve id name = some owner ↔ s.store.Nearest name id owner) ∧
      (s.store.resolve id name = none ↔ ∀ j, s.store.OnChain id j → ∀ v, ¬ s.store.Holds j name v) := by
  obtain ⟨w, shows, grown⟩ := Session.pastGrown past
  have sound := shows.live.sound
  have layered : s.store.Layered := shows.store ▸ sound.closed.layered
  refine ⟨fun id scope found around outer => ?_, grown.kept, fun a params body home found => ?_,
    layered.wellFounded, fun id small name => ?_⟩
  · have there : id < s.store.scopes.size := (Array.getElem?_eq_some_iff.1 found).1
    have inside : around < id := sound.outer id scope (shows.store ▸ found) around outer
    obtain ⟨i, opened⟩ := grown.opened around (Nat.lt_trans inside there)
    obtain ⟨j, opened'⟩ := grown.opened id there
    exact ⟨i, j, opened, opened', grown.order id j around i opened' inside opened⟩
  · rw [← shows.store] at found ⊢
    exact (sound.objects a _ found).2
  · exact ⟨Store.resolveFinds layered small, fun owner => Store.resolveNearest layered small,
      Store.resolveAbsent layered small⟩

-- The scope of the first call holds a function whose scope it is; the second call is inside it.
def keeperSource : String := "let f = fun(n) { let g = fun() { n; }; g; }; f(5)();"

def keeper : Session := (Session.new.run keeperSource).2

theorem scopeChainsEndKeeper :
    (∃ i j, opened? (Session.new.events keeperSource) 1 = some i ∧
      opened? (Session.new.events keeperSource) 2 = some j ∧ i < j) ∧
    (∃ a params body, keeper.store.Holds 1 "g" (.ref a) ∧
      keeper.store.objects[a]? = some (.closure params body 1) ∧ 1 < keeper.store.scopes.size) ∧
    keeper.store.Nearest "n" 2 1 ∧ keeper.store.Nearest "f" 2 0 ∧
    ∀ j, keeper.store.OnChain 2 j → ∀ v, ¬ keeper.store.Holds j "x" v := by
  have past : Session.Past (fun _ => True) (Session.new.events keeperSource) keeper :=
    .run (.new .standard) keeperSource trivial
  obtain ⟨before, _, homes, _, walks⟩ := scopeChainsEnd past
  have called : keeper.store.scopes[2]? = some ⟨.empty, some 1⟩ := rfl
  have there : 2 < keeper.store.scopes.size := (Array.getElem?_eq_some_iff.1 called).1
  have made : keeper.store.objects[2]? = some (.closure [] (.block [.statement (.ident "n" 1) 1] 1) 1) := rfl
  obtain ⟨bound, own, outermost, absent⟩ : keeper.store.Holds 1 "g" (.ref 2) ∧
      keeper.store.resolve 2 "n" = some 1 ∧ keeper.store.resolve 2 "f" = some 0 ∧
      keeper.store.resolve 2 "x" = none := by
    decide +kernel
  refine ⟨before 2 _ called 1 rfl, ⟨2, _, _, bound, made, homes 2 _ _ 1 made⟩, ?_, ?_, ?_⟩
  · exact ((walks 2 there "n").2.1 1).1 own
  · exact ((walks 2 there "f").2.1 0).1 outermost
  · exact (walks 2 there "x").2.2.1 absent

end Baby
