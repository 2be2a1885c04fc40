import Baby.Proofs.Sessions

/-! Evaluation writes to the scope it is in, and to no other scope that was there before. -/
namespace Baby

def Rebinding (l : List Event) (id : ScopeId) (name : String) : Prop :=
  ∃ t st, .entered id t st ∈ l ∧ t.Rebinds name ∧ Path.Rebound l id name

def Tree.RefFree : Tree → Prop := Tree.Every fun t => ∀ name, ¬ t.Rebinds name

theorem refFreeRebinds {t : Tree} (h : t.RefFree) (name : String) : ¬ t.Rebinds name := by
  cases h with
  | node here _ => exact here name

theorem evalStore (limits : Limits) (id : ScopeId) (t : Tree) (st : Store) :
    ((limits.eval id t).run.run st).2 = (limits.trace id t st).store := by
  rw [← Limits.eraseTrace]
  rfl

theorem applyStore (limits : Limits) (fn : Value) (args : List Value) (st : Store) :
    ((limits.apply fn args).run.run st).2 = (limits.traceApply fn args st).store := by
  rw [← Limits.eraseTraceApply]
  rfl

section
variable {P : Tree → Prop} {w : World} {l : List Event} {st : Store} {limits : Limits}

theorem traceFrame (closed : Hereditary P) {env : ScopeId} (live : w.Live P (some env)) {n : Tree}
    (known : P n) (moment : (limits.trace env n w.store).Moment l st) :
    Store.Frame (· = env) (Rebinding l) w.store st := by
  obtain ⟨w', last, trace, _⟩ :=
    followsWithin closed limits.rounds limits.depth env .missing n w live known
  obtain ⟨w₁, rfl, path⟩ := moment.path (trace.path live.sound) last
  refine (path.later live.sound).1.frame.weaken (fun id small reach => ?_) fun id name small _ again => ?_
  · rcases reach with same | new
    · exact (Option.some.inj same).symm
    · exact absurd small (Nat.not_lt_of_le new)
  · have bound := again
    obtain ⟨v, st', member⟩ := again
    obtain ⟨front, back, rfl⟩ := List.append_of_mem member
    obtain ⟨rest, place⟩ := moment.begins
    have within : (limits.trace env n w.store).events =
        front ++ .did (.bind id name v) st' :: (back ++ rest) := by
      rw [← place, List.append_assoc, List.cons_append]
    rcases trace.boundBy within with ⟨_, binds⟩ | ⟨u, st'', entered, binds⟩
    · exact binds.elim
    · exact ⟨u, st'', List.mem_append_left _ entered, binds, bound⟩

theorem traceCalls (closed : Hereditary P) {env : ScopeId} (live : w.Live P (some env)) {n : Tree}
    (known : P n) {home : ScopeId} {params : List String} {args : List Value}
    (member : .did (.enter home params args) st ∈ (limits.trace env n w.store).events) :
    ∀ v ∈ args, st.Usable v := by
  obtain ⟨w', _, trace, _⟩ :=
    followsWithin closed limits.rounds limits.depth env .missing n w live known
  exact (trace.path live.sound).calledUsable live.sound member

theorem traceApplyFrame (closed : Hereditary P) (live : w.Live P none) (fn : Value)
    {args : List Value} (fine : ∀ v ∈ args, w.Ordinary v)
    (moment : (limits.traceApply fn args w.store).Moment l st) :
    Store.Frame (fun _ => False) (fun _ _ => False) w.store st := by
  have follows : Follows P none .missing w (limits.traceApply fn args) fun r w' => w'.Fine r :=
    followsApply closed limits live fn fine
  obtain ⟨w', last, trace, _⟩ := follows
  obtain ⟨w₁, rfl, path⟩ := moment.path (trace.path live.sound) last
  have outside (id : ScopeId) (small : id < w.store.scopes.size) (reach : w.Reaches none id) : False := by
    rcases reach with same | new
    · cases same
    · exact Nat.not_lt_of_le new small
  exact (path.later live.sound).1.frame.weaken outside fun id _ small reach _ => outside id small reach

end

theorem refFreeFrame {s s' : Session} (h : s.Reachable Tree.RefFree)
    (leads : Session.Leads Tree.RefFree s s') :
    Store.Frame (fun _ => True) (fun _ _ => False) s.store s'.store := by
  have closed : Hereditary Tree.RefFree := everyHereditary _
  obtain ⟨w, shows⟩ := Session.reachableShows closed h
  obtain ⟨w', shows', later⟩ := Session.leadsLater closed leads shows
  rw [← shows.store, ← shows'.store]
  refine later.frame.weaken (fun _ _ _ => trivial) ?_
  rintro _ name _ _ ⟨t, free, binds⟩
  exact refFreeRebinds free name binds

/-- Evaluating a tree in a scope, at any moment of it, has written to that scope only, and has bound a
name of it anew only by reference. A call has written to none that was there; evaluation calls with
usable values only. Without references every name keeps its type. -/
theorem evaluationWritesItsScope {s : Session} (h : s.Reachable fun _ => True) (limits : Limits) :
    (∀ env n, env < s.store.scopes.size →
      ((limits.eval env n).run.run s.store).2 = (limits.trace env n s.store).store ∧
      (∀ l st, (limits.trace env n s.store).Moment l st →
        Store.Frame (· = env) (Rebinding l) s.store st) ∧
      ∀ home params args st, .did (.enter home params args) st ∈ (limits.trace env n s.store).events →
        ∀ v ∈ args, st.Usable v) ∧
    (∀ fn args, (∀ v ∈ args, s.store.Usable v) →
      ((limits.apply fn args).run.run s.store).2 = (limits.traceApply fn args s.store).store ∧
      ∀ l st, (limits.traceApply fn args s.store).Moment l st →
        Store.Frame (fun _ => False) (fun _ _ => False) s.store st) ∧
    ∀ s', s.Reachable Tree.RefFree → Session.Leads Tree.RefFree s s' →
      Store.Frame (fun _ => True) (fun _ _ => False) s.store s'.store := by
  obtain ⟨w₀, shows₀⟩ := Session.reachableShows everyTree h
  obtain ⟨w, shows, ordinary⟩ := shows₀.usable
  have sound : w.Sound fun _ => True := shows.live.sound.mono fun _ _ => trivial
  refine ⟨fun env n there => ?_, fun fn args usable => ⟨applyStore .., fun l st moment => ?_⟩,
    fun s' free leads => refFreeFrame free leads⟩
  · rw [← shows.store] at there ⊢
    have live : w.Live (fun _ => True) (some env) := ⟨sound, fun j same => Option.some.inj same ▸ there⟩
    exact ⟨evalStore .., fun l st moment => traceFrame everyTree live trivial moment,
      fun home params args st member => traceCalls everyTree live trivial member⟩
  · have fine (v : Value) (member : v ∈ args) : w.Ordinary v := ordinary v (usable v member)
    rw [← shows.store] at moment ⊢
    exact traceApplyFrame everyTree ⟨sound, nofun⟩ fn fine moment

def setterSource : String := "let x = 1; let f = fun(y) { let z = y; x = z; };"

def setter : Session := (Session.new.run setterSource).2

theorem setterObjects : setter.store.objects = #[.integer 1, .integer 1, .closure ["y"]
    (.block [.define "z" .assign (.ident "y" 1) 1, .assign "x" .assign (.ident "z" 1) 1] 1) 0] := rfl

theorem setterUsable (v : Value) (member : v ∈ [Value.ref 1]) : setter.store.Usable v := by
  rw [List.mem_singleton] at member
  subst member
  refine ⟨⟨.integer 1, by rw [setterObjects]; rfl, rfl⟩, ?_⟩
  rintro a _ ⟨b, d, found, _⟩
  rw [setterObjects] at found
  rcases b with _ | _ | _ | b <;> simp at found

theorem numberFree (n : Int) (line : Nat) : (Tree.number n line).RefFree :=
  .node (fun _ binds => binds) (by simp [Tree.parts])

theorem defineFree (tree : Tree) (h : parse "let x = 1;" = .ok ⟨tree, []⟩) : tree.RefFree := by
  have same : parse "let x = 1;" =
    .ok ⟨.program [.define "x" .assign (.number 1 1) 1] 1, []⟩ := rfl
  rw [same] at h
  cases h
  refine .node (fun _ binds => binds) fun t member => ?_
  rw [List.mem_singleton.1 member]
  refine .node ?_ fun u member => ?_
  · rintro name ⟨_, ⟨⟩⟩
  · rw [List.mem_singleton.1 member]
    exact numberFree 1 1

theorem evaluationWritesItsScopeSetter :
    Store.Frame (· = 0)
      (Rebinding (Limits.standard.trace 0 (.call (.ident "f" 1) [.ident "x" 1] 1) setter.store).events)
      setter.store
      ((Limits.standard.eval 0 (.call (.ident "f" 1) [.ident "x" 1] 1)).run.run setter.store).2 ∧
    Store.Frame (fun _ => False) (fun _ _ => False) setter.store
      ((Limits.standard.apply (.ref 2) [.ref 1]).run.run setter.store).2 ∧
    Store.Frame (fun _ => True) (fun _ _ => False) (Session.new.run "let x = 1;").2.store
      ((Session.new.run "let x = 1;").2.run "let x = 1;").2.store := by
  have reached : setter.Reachable fun _ => True :=
    ⟨.standard, .single (.run setterSource fun _ _ => trivial)⟩
  have reached' : (Session.new.run "let x = 1;").2.Reachable fun _ => True :=
    ⟨.standard, .single (.run _ fun _ _ => trivial)⟩
  have there : 0 < setter.store.scopes.size := Nat.zero_lt_one
  obtain ⟨evaluated, called, _⟩ := evaluationWritesItsScope reached .standard
  obtain ⟨_, _, kept⟩ := evaluationWritesItsScope reached' .standard
  obtain ⟨left, frames, _⟩ := evaluated 0 (.call (.ident "f" 1) [.ident "x" 1] 1) there
  obtain ⟨left', frames'⟩ := called (.ref 2) [.ref 1] setterUsable
  refine ⟨?_, ?_, kept _ ⟨.standard, .single (.run _ defineFree)⟩ (.single (.run _ defineFree))⟩
  · rw [left]
    exact frames _ _ .ended
  · rw [left']
    exact frames' _ _ .ended

end Baby
