import Baby.Proofs.Arithmetic

/-! Only bindings and calls have effects. A tree without them, apart from the bodies of the functions it
makes, may read every name and hand out every object, and still makes new objects only. -/
namespace Baby

/-! Trees -/

inductive Tree.Still : Tree → Prop where
  | node {t} (here : t.bindsOrCalls = false) (parts : ∀ u ∈ t.evaluated, Still u) : Still t

/-! Evaluations -/

theorem Store.growsCopy (st : Store) (v : Value) : st.Grows (st.copy v).2 := by
  rcases World.copyCases st v with ⟨o, _, _, copied⟩ | ⟨_, copied⟩
  · rw [copied]
    exact st.growsAlloc o
  · rw [copied]
    exact .refl st

def Harmless {α : Type} (x : Eval α) : Prop := ∀ st : Store, st.Grows (x.run.run st).2

namespace Harmless
variable {α β : Type}

theorem pure (a : α) : Harmless (pure a) := fun st => .refl st

theorem throw (stop : Stop) : Harmless (throw stop : Eval α) := fun st => .refl st

theorem bind {x : Eval α} {k : α → Eval β} (first : Harmless x) (rest : ∀ a, Harmless (k a)) :
    Harmless (x >>= k) := by
  intro st
  have grows := first st
  rw [Mimics.runBind]
  rcases ran : x.run.run st with ⟨stop | a, st₁⟩
  · rw [ran] at grows
    exact grows
  · rw [ran] at grows
    exact grows.trans (rest a st₁)

theorem map {x : Eval α} (h : Harmless x) (k : α → β) : Harmless (k <$> x) := by
  rw [map_eq_pure_bind]
  exact h.bind fun a => .pure (k a)

theorem catches {x : Eval α} {k : Stop → Eval α} (first : Harmless x) (rest : ∀ stop, Harmless (k stop)) :
    Harmless (tryCatch x k) := by
  intro st
  have grows := first st
  rw [Mimics.runCatch]
  rcases ran : x.run.run st with ⟨stop | a, st₁⟩
  · rw [ran] at grows
    exact grows.trans (rest stop st₁)
  · rw [ran] at grows
    exact grows

theorem look {k : Store → Eval α} (rest : ∀ st, Harmless (k st)) : Harmless (Machine.look >>= k) :=
  fun st => rest st st

theorem allocate (o : Object) : Harmless (Machine.perform (.alloc o)) := fun st => st.growsAlloc o

theorem copy (v : Value) : Harmless (Eval.copy v) := fun st => st.growsCopy v

theorem alloc (o : Object) : Harmless (Eval.alloc o) := (allocate o).bind fun _ => .pure _

theorem fail (f : Fault) : Harmless (Eval.fail f : Eval α) := (allocate _).bind fun _ => .throw _

theorem leave (v : Value) : Harmless (Eval.leave v : Eval α) := (allocate _).bind fun _ => .throw _

theorem answer (reply : Store → Reply) : Harmless (Eval.answer reply) := by
  refine look fun st => ?_
  rcases reply st with f | v | o | _
  · exact fail f
  · exact pure v
  · exact alloc o
  · exact throw _

theorem file (d : Dict HashKey Entry) (key value : Value) : Harmless (Eval.file d key value) := by
  refine (copy key).bind fun key => look fun st => ?_
  split
  · exact pure _
  · exact fail _

theorem takeReturn {x : Eval (Option Value)} (h : Harmless x) (id : ScopeId) :
    Harmless (Eval.takeReturn id x) := by
  refine h.catches fun stop => ?_
  cases stop with
  | returned _ v => exact pure (some v)
  | _ => exact throw _

end Harmless

def harmless : Walk (.flat Eq (fun t u => t = u ∧ t.Still) Eq Eq False) Eval Eval where
  Rel _ _ _ x _ _ := Harmless x
  goodLater _ _ := trivial
  filedLater _ _ := trivial
  homeLater _ _ := trivial
  goodNull := trivial
  goodBoolean := trivial
  filedNone := trivial
  shape := by
    rintro t _ ⟨rfl, ⟨here, parts⟩⟩
    refine .self (fun acts => ?_) (fun u member => ⟨rfl, parts u member⟩) fun _ _ _ _ => rfl
    cases here.symm.trans acts
  called never := never.elim
  held := Terms.flatHeld
  pure _ := .pure _
  bind first rest := first.bind fun a => rest () a trivial (Terms.flatHolds _ a)
  map h _ := h.map _
  look rest := .look fun st => rest st st rfl
  limit _ := .throw _
  marked _ _ _ _ stop := .throw stop
  fail f := .fail f
  leave _ := .leave _
  alloc _ := .alloc _
  answer _ := .answer _
  file _ _ _ := .file _ _ _
  act never := never.elim
  printLine never := never.elim
  call never := never.elim
  program _ h := h.takeReturn _
  visit _ h := h

/-- A tree without a binding or a call, outside the bodies of functions, has no effect. In whatever store
and scope it is evaluated and however this ends, every object is as it was, no name is bound otherwise, no
scope is opened and nothing is printed; there may be new objects. -/
theorem stillTreesOnlyAllocate (limits : Limits) (id : ScopeId) {t : Tree} (still : t.Still) {st st' : Store}
    {r : Except Stop (Option Value)} (ended : (limits.eval id t).run.run st = (r, st')) : st.Grows st' := by
  have grows : st.Grows ((limits.eval id t).run.run st).2 :=
    harmless.within (fun _ => rfl) limits.rounds limits.depth id .missing () t t ⟨rfl, still⟩ st
  rw [ended] at grows
  exact grows

def pairHolder : Session := (Session.new.run "let a = [1, 2];").2

/- `if (a[0] < 2) { return {"x": a, "f": fun(y) { a = y; print(a); }}; }` -/
def handsOutPair : Tree :=
  .cond (.binary .lt (.index (.ident "a" 1) (.number 0 1) 1) (.number 2 1) 1)
    (.block [.ret (.hash [(.string "x" 1, .ident "a" 1), (.string "f" 1, .function ["y"]
      (.block [.assign "a" .assign (.ident "y" 1) 1, .statement (.call (.ident "print" 1) [.ident "a" 1] 1) 1] 1)
      1)] 1) 1] 1) .missing 1

theorem handsOutPairStill : handsOutPair.Still := by
  refine .node rfl ?_
  repeat first
    | exact List.forall_mem_nil _
    | refine List.forall_mem_cons.2 ⟨.node rfl ?_, ?_⟩

theorem stillTreesOnlyAllocatePair :
    ∃ a v st', (Limits.standard.eval 0 handsOutPair).run.run pairHolder.store = (.error (.returned a v), st') ∧
      pairHolder.store.Grows st' := by
  refine ⟨_, _, _, rfl, ?_⟩
  exact stillTreesOnlyAllocate .standard 0 handsOutPairStill rfl

end Baby
