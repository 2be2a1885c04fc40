import Baby.Eval
import Baby.Grammar.Parse

/-! Running sources one after another against the same scope. -/
namespace Baby

/-- How a run ends. The result is an object of the store, which may be an error, or nothing. -/
inductive Ending where
  | finished (result : Option Value)
  | refused (errors : List SyntaxError)
  | unread (halt : Halt)
  | tooDeep
  | endless
  deriving DecidableEq, Repr

def Ending.ofStop : Stop → Ending
  | .fault a _ | .returned a _ => .finished (some (.ref a))
  | .depth => .tooDeep
  | .rounds => .endless

namespace Eval

def finish (m : Eval (Option Value)) (st : Store) : Ending × Store :=
  match m.run.run st with
  | (.ok result, st) => (.finished result, st)
  | (.error stop, st) => (.ofStop stop, st)

end Eval

structure Session where
  store : Store
  root : ScopeId
  limits : Limits

namespace Session

def ofStore (st : Store) (limits : Limits) : Session :=
  let (root, st) := st.openScope none
  ⟨st, root, limits⟩

def new : Session := ofStore .empty .standard

def execute (s : Session) (t : Tree) : Ending × Session :=
  let (ending, st) := (s.limits.eval s.root t).finish s.store
  (ending, { s with store := st })

def run (s : Session) (source : String) : Ending × Session :=
  match parse source with
  | .error halt => (.unread halt, s)
  | .ok ⟨tree, []⟩ => s.execute tree
  | .ok ⟨_, errors⟩ => (.refused errors, s)

def takePrinted (s : Session) : String × Session :=
  (s.store.printedText, { s with store := s.store.clearPrinted })

end Session

def refusalMessage (count : Nat) (file : Option String) : String :=
  toString count ++ " syntax error" ++ (if count = 1 then "" else "s") ++
    match file with
    | some name => " in " ++ name
    | none => ""

end Baby
