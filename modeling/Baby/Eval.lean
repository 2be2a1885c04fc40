import Baby.Eval.Machine

/-! Evaluation of trees. An error or a return ends everything up to the place that takes it: a call
or a program takes a return, and nothing takes an error before the run ends. The evaluator of a tree
is given the evaluator of its parts, and `within` closes the recursion under a limit on the nesting.
What is left of the limit also bounds how deep values are compared and printed. -/
namespace Baby
namespace Eval
open Machine (look perform visit activate)

variable {m : Type → Type} [Monad m] [MonadExceptOf Stop m] [Machine m] {α : Type}

@[specialize] def alloc (o : Object) : m Value := do
  let a : Addr ← perform (.alloc o)
  return .ref a

@[specialize] def copy (v : Value) : m Value := perform (.copy v)

@[specialize] def fail (f : Fault) : m α := do
  let a : Addr ← perform (.alloc (.error f))
  throw (.fault a f)

@[specialize] def failIf (bad : Bool) (f : Fault) : m Unit :=
  if bad then fail f else return ()

@[specialize] def leave (v : Value) : m α := do
  let a : Addr ← perform (.alloc (.returned v))
  throw (.returned a v)

@[specialize] def deliver : Reply → m Value
  | .ok (.old v) => return v
  | .ok (.fresh o) => alloc o
  | .ok .tooDeep => throw Stop.depth
  | .error f => fail f

@[specialize] def answer (reply : Store → Reply) : m Value := do deliver (reply (← look))

/-- A marker that was kept as data stops the evaluation that meets it. -/
@[specialize] def settle (v : Value) : m Value := do
  match v, (← look).object? v with
  | .ref a, some (.error f) => throw (.fault a f)
  | .ref a, some (.returned w) => throw (.returned a w)
  | _, _ => return v

@[specialize] def takeReturn (id : ScopeId) (x : m (Option Value)) : m (Option Value) :=
  activate id <| tryCatch x fun
    | .returned _ v => return some v
    | stop => throw stop

@[specialize] def printLine (depth : Nat) (v : Value) : m Unit := do
  match (← look).inspectWithin depth [] v with
  | some text => perform (.print ⟨v, text⟩)
  | none => throw Stop.depth

@[specialize] def print (depth : Nat) : List Value → m Unit
  | [] => return ()
  | v :: vs => do
      printLine depth v
      print depth vs

/-! Parts -/

@[specialize] def operand (ev : Evaluator m) (id : ScopeId) (t : Tree) : m Value := do
  return (← ev id t).getD .null

@[specialize] def operands (ev : Evaluator m) (id : ScopeId) : List Tree → m (List Value)
  | [] => return []
  | t :: ts => do
      let v ← operand ev id t
      return v :: (← operands ev id ts)

@[specialize] def sequence (ev : Evaluator m) (id : ScopeId) (last : Option Value) :
    List Tree → m (Option Value)
  | [] => return last
  | t :: ts => do sequence ev id (← ev id t) ts

@[specialize] def binding (ev : Evaluator m) (id : ScopeId) (name : String) (op : Op) (value : Tree) :
    m (Option Value) := do
  let v ← operand ev id value
  if op = .assignRef then
    perform (.bind id name v)
    return none
  else
    let refusal : Option Fault ← perform (.assign id name v)
    match refusal with
    | none => return none
    | some f => fail f

@[specialize] def file (d : Dict HashKey Entry) (key value : Value) : m (Dict HashKey Entry) := do
  let key ← copy key
  let st ← look
  match st.hashKey? key with
  | some h => return d.put h ⟨key, value⟩
  | none => fail (.unhashable (st.tag key))

/-- A key is checked before its value is evaluated, and copied after. -/
@[specialize] def entries (ev : Evaluator m) (id : ScopeId) (d : Dict HashKey Entry) :
    List (Tree × Tree) → m (Dict HashKey Entry)
  | [] => return d
  | (k, t) :: ps => do
      let key ← operand ev id k
      let st ← look
      failIf (st.hashKey? key).isNone (.unhashable (st.tag key))
      let value ← operand ev id t
      entries ev id (← file d key value) ps

@[specialize] def loop (test : m Value) (body : m (Option Value)) :
    Nat → Option Value → m (Option Value)
  | 0, _ => throw Stop.rounds
  | n + 1, last => do
      if (← test).isTruthy then loop test body n (← body) else return last

/-! Calls -/

@[specialize] def enter (ev : Evaluator m) (params : List String) (body : Tree) (home : ScopeId)
    (args : List Value) : m (Option Value) := do
  failIf (args.length ≠ params.length) (.wrongArity params.length args.length)
  let id : ScopeId ← perform (.enter home params args)
  takeReturn id (ev id body)

@[specialize] def untilFalse (body : m (Option Value)) : Nat → m (Option Value)
  | 0 => throw Stop.rounds
  | n + 1 => do
      match ← body with
      | some (.boolean false) => return some .null
      | some (.ref a) =>
          match (← look).object? (.ref a) with
          | some (.error f) => throw (.fault a f)
          | _ => untilFalse body n
      | _ => untilFalse body n

@[specialize] def doWhile (ev : Evaluator m) (rounds : Nat) (fn : Value) : m (Option Value) := do
  let st ← look
  match st.object? fn with
  | some (.closure [] body home) => untilFalse (enter ev [] body home []) rounds
  | some (.closure params _ _) => fail (.loopParameters params.length)
  | _ => fail (.builtinArgument .doWhile (st.tag fn))

@[specialize] def callBuiltin (ev : Evaluator m) (rounds depth : Nat) (b : Builtin) (args : List Value) :
    m (Option Value) := do
  match b, args with
  | .print, args =>
      print depth args
      return some .null
  | .doWhile, [fn] => doWhile ev rounds fn
  | b, args => some <$> answer (·.libraryReply b args)

@[specialize] def apply (ev : Evaluator m) (rounds depth : Nat) (fn : Value) (args : List Value) :
    m (Option Value) := do
  match fn with
  | .builtin b => callBuiltin ev rounds depth b args
  | fn =>
      let st ← look
      match st.object? fn with
      | some (.closure params body home) => enter ev params body home args
      | _ => fail (.notCallable (st.tag fn))

/-! Trees -/

/-- One tree, given the evaluator of its parts and how deep they may nest. The right operand comes before
the left. -/
@[specialize] def step (ev : Evaluator m) (rounds depth : Nat) (id : ScopeId) : Tree → m (Option Value)
  | .program body _ => takeReturn id (sequence ev id none body)
  | .block body _ => do return some ((← sequence ev id none body).getD .null)
  | .define name op value _ | .assign name op value _ => binding ev id name op value
  | .ret value _ => do leave (← operand ev id value)
  | .statement value _ => ev id value
  | .ident name _ => some <$> answer (·.nameReply id name)
  | .number n _ => some <$> alloc (.number n)
  | .string s _ => some <$> alloc (.string s)
  | .boolean b _ => return some (.boolean b)
  | .null _ => return some .null
  | .array elements _ => do
      let vs ← operands ev id elements
      some <$> alloc (.array vs)
  | .hash pairs _ => do
      let d ← entries ev id .empty pairs
      some <$> alloc (.hash d)
  | .function params body _ => some <$> alloc (.closure params body id)
  | .unary op e _ => do
      let v ← operand ev id e
      some <$> answer (·.unaryReply op v)
  | .binary op left right _ => do
      let w ← operand ev id right
      let v ← operand ev id left
      some <$> answer (·.binaryReply depth op v w)
  | .cond test yes no _ => do
      if (← operand ev id test).isTruthy then ev id yes
      else
        match no with
        | .missing => return some .null
        | no => ev id no
  | .loop test body _ => loop (operand ev id test) (ev id body) rounds (some .null)
  | .call callee args _ => do
      let fn ← operand ev id callee
      let vs ← operands ev id args
      apply ev rounds depth fn vs
  | .index target place _ => do
      let v ← operand ev id target
      let i ← operand ev id place
      some <$> answer (·.indexReply v i)
  | .dot target key _ => do
      let v ← operand ev id target
      let tag := (← look).tag v
      failIf (tag ≠ .hash) (.noAttributes tag)
      let k ← operand ev id key
      some <$> answer (·.attributeReply v k)
  | .missing | .unknown _ => return none

@[specialize] def node (ev : Evaluator m) (rounds depth : Nat) : Evaluator m := fun id t => visit id t do
  match ← step ev rounds depth id t with
  | some v => some <$> settle v
  | none => return none

@[specialize] def within (rounds : Nat) : Nat → Evaluator m
  | 0 => fun _ _ => throw Stop.depth
  | n + 1 => node (within rounds n) rounds n

end Eval

structure Limits where
  depth : Nat
  rounds : Nat
  deriving DecidableEq, Repr

def Limits.standard : Limits := ⟨10000, Nat.pow 2 62⟩

def Limits.eval (l : Limits) : Evaluator Eval := Eval.within l.rounds l.depth

def Limits.apply (l : Limits) (fn : Value) (args : List Value) : Eval (Option Value) :=
  Eval.apply l.eval l.rounds l.depth fn args

end Baby
