import Baby.Eval.Library
import Baby.Store.Inspect

/-! What evaluation asks of the machine it runs on. It reads the store, changes it by the acts listed
here and in no other way, and stops. Evaluation is written once for every such machine; `Eval` is the
one that keeps a store and nothing else. -/
namespace Baby

inductive Stop where
  | fault (addr : Addr) (fault : Fault)
  | returned (addr : Addr) (value : Value)
  | depth
  | rounds
  deriving DecidableEq, Repr

inductive Act where
  | alloc (object : Object)
  | copy (value : Value)
  | bind (id : ScopeId) (name : String) (value : Value)
  | assign (id : ScopeId) (name : String) (value : Value)
  | enter (home : ScopeId) (params : List String) (args : List Value)
  | print (line : Printed)

namespace Act

abbrev Result : Act → Type
  | alloc _ => Addr
  | copy _ => Value
  | bind .. | print _ => Unit
  | assign .. => Option Fault
  | enter .. => ScopeId

def run : (act : Act) → Store → act.Result × Store
  | alloc o, st => (st.objects.size, { st with objects := st.objects.push o })
  | copy v, st => st.copy v
  | bind id name v, st => ((), st.bind id name v)
  | assign id name v, st => st.assign id name v
  | enter home params args, st =>
      let (id, st) := st.openScope (some home)
      (id, st.bindAll id params args)
  | print line, st => ((), { st with printed := st.printed.push line })

end Act

/-- `visit` is put around the evaluation of every tree, and `activate` around whatever takes a return:
a program, or one application of a function. -/
class Machine (m : Type → Type) where
  look : m Store
  perform (act : Act) : m act.Result
  visit : ScopeId → Tree → m (Option Value) → m (Option Value)
  activate : ScopeId → m (Option Value) → m (Option Value)

abbrev Eval := ExceptT Stop (StateM Store)

instance : Machine Eval where
  look := get
  perform act := modifyGet act.run
  visit _ _ x := x
  activate _ x := x

abbrev Evaluator (m : Type → Type) := ScopeId → Tree → m (Option Value)

end Baby
