import Baby.Proofs.Walk
import Baby.Session

/-! A machine that keeps a log. It runs the same evaluation and writes down every tree that is entered
and left, every activation and every act, each with the store as it is then. With the log left out it
is the machine that runs. -/
namespace Baby

inductive Event where
  | entered (id : ScopeId) (tree : Tree) (store : Store)
  | left (id : ScopeId) (tree : Tree) (result : Except Stop (Option Value)) (store : Store)
  | called (id : ScopeId) (store : Store)
  | answered (id : ScopeId) (result : Except Stop (Option Value)) (store : Store)
  | did (act : Act) (store : Store)

def Event.store : Event → Store
  | entered _ _ st | left _ _ _ st | called _ st | answered _ _ st | did _ st => st

structure Outcome (α : Type) where
  events : List Event
  result : Except Stop α
  store : Store

def Traced (α : Type) : Type := Store → Outcome α

namespace Traced
variable {α β : Type}

protected def bind (x : Traced α) (f : α → Traced β) : Traced β := fun st =>
  match x st with
  | ⟨l, .ok a, st₁⟩ => ⟨l ++ (f a st₁).events, (f a st₁).result, (f a st₁).store⟩
  | ⟨l, .error stop, st₁⟩ => ⟨l, .error stop, st₁⟩

protected def tryCatch (x : Traced α) (handle : Stop → Traced α) : Traced α := fun st =>
  match x st with
  | ⟨l, .ok a, st₁⟩ => ⟨l, .ok a, st₁⟩
  | ⟨l, .error stop, st₁⟩ =>
      ⟨l ++ (handle stop st₁).events, (handle stop st₁).result, (handle stop st₁).store⟩

instance : Monad Traced where
  pure a := fun st => ⟨[], .ok a, st⟩
  bind := Traced.bind

instance : MonadExceptOf Stop Traced where
  throw stop := fun st => ⟨[], .error stop, st⟩
  tryCatch := Traced.tryCatch

instance : Machine Traced where
  look := fun st => ⟨[], .ok st, st⟩
  perform act := fun st => ⟨[.did act (act.run st).2], .ok (act.run st).1, (act.run st).2⟩
  visit id t x := fun st =>
    ⟨.entered id t st :: (x st).events ++ [.left id t (x st).result (x st).store],
      (x st).result, (x st).store⟩
  activate id x := fun st =>
    ⟨.called id st :: (x st).events ++ [.answered id (x st).result (x st).store],
      (x st).result, (x st).store⟩

def erase (x : Traced α) : Eval α := ExceptT.mk fun st => ((x st).result, (x st).store)

@[simp] theorem erasePure (a : α) : erase (pure a) = pure a := rfl

@[simp] theorem eraseBind (x : Traced α) (f : α → Traced β) :
    erase (x >>= f) = erase x >>= fun a => erase (f a) := by
  funext st
  show ((Traced.bind x f st).result, (Traced.bind x f st).store) = _
  unfold Traced.bind
  rcases same : x st with ⟨l, stop | a, st₁⟩
  · simp [erase, bind, ExceptT.bind, ExceptT.mk, ExceptT.bindCont, StateT.bind, same]
    rfl
  · simp [erase, bind, ExceptT.bind, ExceptT.mk, ExceptT.bindCont, StateT.bind, same]

@[simp] theorem eraseMap (f : α → β) (x : Traced α) : erase (f <$> x) = f <$> erase x := by
  have same : f <$> x = x >>= fun a => pure (f a) := rfl
  rw [same, eraseBind, map_eq_pure_bind]
  rfl

@[simp] theorem eraseThrow (stop : Stop) : erase (throw stop : Traced α) = throw stop := rfl

@[simp] theorem eraseTryCatch (x : Traced α) (handle : Stop → Traced α) :
    erase (tryCatch x handle) = tryCatch (erase x) fun stop => erase (handle stop) := by
  funext st
  show ((Traced.tryCatch x handle st).result, (Traced.tryCatch x handle st).store) = _
  unfold Traced.tryCatch
  rcases same : x st with ⟨l, stop | a, st₁⟩
  · simp [erase, tryCatch, tryCatchThe, MonadExceptOf.tryCatch, ExceptT.tryCatch, ExceptT.mk, bind,
      StateT.bind, same]
  · simp [erase, tryCatch, tryCatchThe, MonadExceptOf.tryCatch, ExceptT.tryCatch, ExceptT.mk, bind,
      StateT.bind, same]
    rfl

@[simp] theorem eraseLook : erase Machine.look = Machine.look := rfl

@[simp] theorem erasePerform (act : Act) : erase (Machine.perform act) = Machine.perform act := rfl

@[simp] theorem eraseVisit (id : ScopeId) (t : Tree) (x : Traced (Option Value)) :
    erase (Machine.visit id t x) = Machine.visit id t (erase x) := rfl

@[simp] theorem eraseActivate (id : ScopeId) (x : Traced (Option Value)) :
    erase (Machine.activate id x) = Machine.activate id (erase x) := rfl

/-! Evaluation -/

@[simp] theorem eraseAlloc (o : Object) : erase (Eval.alloc o) = Eval.alloc o := by
  simp only [Eval.alloc, eraseBind, erasePure]
  rfl

@[simp] theorem eraseFail (f : Fault) : erase (Eval.fail f : Traced α) = Eval.fail f := by
  simp only [Eval.fail, eraseBind, eraseThrow]
  rfl

@[simp] theorem eraseLeave (v : Value) : erase (Eval.leave v : Traced α) = Eval.leave v := by
  simp only [Eval.leave, eraseBind, eraseThrow]
  rfl

@[simp] theorem eraseAnswer (reply : Store → Reply) : erase (Eval.answer reply) = Eval.answer reply := by
  unfold Eval.answer
  rw [eraseBind]
  congr 1
  funext st
  rcases reply st with f | ⟨v⟩ | ⟨o⟩ | _ <;> simp [Eval.deliver]

@[simp] theorem eraseFile (d : Dict HashKey Entry) (key value : Value) :
    erase (Eval.file d key value) = Eval.file d key value := by
  simp only [Eval.file, Eval.copy, eraseBind, eraseLook]
  congr 1
  funext copied
  congr 1
  funext st
  split <;> simp

@[simp] theorem erasePrintLine (depth : Nat) (v : Value) :
    erase (Eval.printLine depth v) = Eval.printLine depth v := by
  simp only [Eval.printLine, eraseBind, eraseLook]
  congr 1
  funext st
  split <;> rfl

@[simp] theorem eraseTakeReturn (id : ScopeId) (x : Traced (Option Value)) :
    erase (Eval.takeReturn id x) = Eval.takeReturn id (erase x) := by
  simp only [Eval.takeReturn, eraseActivate, eraseTryCatch]
  congr 2
  funext stop
  cases stop <;> rfl

def erasing : Walk (.flat Eq Eq Eq Eq True) Traced Eval where
  Rel _ _ _ x y _ := erase x = y
  goodLater _ _ := trivial
  filedLater _ _ := trivial
  homeLater _ _ := trivial
  goodNull := trivial
  goodBoolean := trivial
  filedNone := trivial
  shape := Terms.flatShape
  called _ same := same
  held := Terms.flatHeld
  pure _ := rfl
  bind := by
    rintro α β _ _ _ post _ x _ f g rfl rest
    rw [eraseBind, funext fun a => rest () a trivial (Terms.flatHolds post a)]
  map := by
    rintro α β _ _ _ _ _ x _ f rfl _
    exact eraseMap f x
  look := by
    intro α _ _ _ _ f g rest
    rw [eraseBind, eraseLook, funext fun st => rest st st rfl]
  limit _ := rfl
  marked _ _ _ _ _ := rfl
  fail f := eraseFail f
  leave _ := eraseLeave _
  alloc := by rintro _ _ _ _ _ (_ | _ | _ | _ | rfl) <;> exact eraseAlloc _
  answer := by rintro _ _ _ _ _ (_ | _ | rfl | _ | _ | _) <;> exact eraseAnswer _
  file _ _ _ := eraseFile _ _ _
  act _ _ := rfl
  printLine := by
    rintro _ _ _ depth _ v _ rfl _
    exact erasePrintLine depth v
  call := by
    intro _ _ _ home params args x y _ _ _ same
    rw [eraseBind, erasePerform, funext fun j => (eraseTakeReturn j (x j)).trans (congrArg _ (same j ()))]
  program := by
    rintro id _ _ _ _ _ x _ _ rfl
    exact eraseTakeReturn id x
  visit := by
    rintro id _ u _ _ x _ rfl rfl
    exact eraseVisit id u x

theorem eraseWithin (rounds depth : Nat) (id : ScopeId) (t : Tree) :
    erase (Eval.within rounds depth id t) = Eval.within rounds depth id t :=
  erasing.within (fun _ => rfl) rounds depth id .missing () t t rfl

theorem eraseSequence (rounds depth : Nat) (id : ScopeId) (last : Option Value) (ts : List Tree) :
    erase (Eval.sequence (Eval.within rounds depth) id last ts) =
      Eval.sequence (Eval.within rounds depth) id last ts := by
  have parts := erasing.within (fun _ => rfl) rounds depth
  have each : List.Forall₂ Eq ts ts := List.forall₂_same.2 fun _ _ => rfl
  exact erasing.sequence (t := .missing) (w := ()) parts (Terms.flatHolds .result last) each

end Traced

def Limits.trace (l : Limits) (id : ScopeId) (t : Tree) : Traced (Option Value) :=
  Eval.within l.rounds l.depth id t

def Limits.traceApply (l : Limits) (fn : Value) (args : List Value) : Traced (Option Value) :=
  Eval.apply (Eval.within l.rounds l.depth) l.rounds l.depth fn args

theorem Limits.eraseTrace (l : Limits) (id : ScopeId) (t : Tree) :
    (l.trace id t).erase = l.eval id t :=
  Traced.eraseWithin l.rounds l.depth id t

theorem Limits.eraseTraceApply (l : Limits) (fn : Value) (args : List Value) :
    (l.traceApply fn args).erase = l.apply fn args := by
  have parts := Traced.erasing.within (fun _ => rfl) l.rounds l.depth
  have applied : Traced.erasing.Rel none .missing () (l.traceApply fn args) (l.apply fn args) .result :=
    Traced.erasing.apply parts trivial l.rounds rfl fn fun _ _ => trivial
  exact applied

end Baby
