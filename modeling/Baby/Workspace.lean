import Baby.Dict
import Baby.Grammar.Parse

/-! Documents of an editor: their diagnostics, and an index of what they define at top level. -/
namespace Baby

inductive SymbolKind where
  | function | value
  deriving DecidableEq, Repr

def SymbolKind.name : SymbolKind → String
  | function => "Function"
  | value => "Variable"

structure Symbol where
  name : String
  kind : SymbolKind
  uri : String
  line : Nat
  detail : String
  deriving DecidableEq, Repr

structure LineRange where
  line : Nat
  length : Nat
  deriving DecidableEq, Repr

structure Diagnostic where
  range : LineRange
  message : String
  deriving DecidableEq, Repr

structure Location where
  uri : String
  range : LineRange
  deriving DecidableEq, Repr

namespace Symbol

def ofTree? (uri : String) : Tree → Option Symbol
  | .define name op (.function params _ _) line =>
      some ⟨name, .function, uri, line - 1,
        "let " ++ name ++ " " ++ op.text ++ " fun(" ++ commas params ++ ")"⟩
  | .define name _ _ line => some ⟨name, .value, uri, line - 1, "let " ++ name⟩
  | _ => none

def range (s : Symbol) : LineRange := ⟨s.line, s.name.length⟩

end Symbol

def Diagnostic.ofError (e : SyntaxError) : Diagnostic := ⟨⟨e.line - 1, 0⟩, e.message⟩

structure Analysis where
  symbols : List Symbol
  diagnostics : List Diagnostic
  deriving DecidableEq, Repr

def Tree.statements : Tree → List Tree
  | .program body _ => body
  | _ => []

def analyze (uri text : String) : Except Halt Analysis := do
  let parsed ← parse text
  return ⟨parsed.tree.statements.filterMap (Symbol.ofTree? uri), parsed.errors.map .ofError⟩

/-- What the documents and the index do not decide: which texts nest too deep for the stack that there is,
and which word stands at a place of a document. It may differ from one moment to the next. -/
structure Host where
  tooDeep : String → Bool
  wordAt : (uri : String) → (line character : Nat) → String

inductive Unanalyzed where
  | halt (halt : Halt)
  | tooDeep
  deriving DecidableEq, Repr

def Host.analyze (host : Host) (uri text : String) : Except Unanalyzed Analysis :=
  if host.tooDeep text then .error .tooDeep else (Baby.analyze uri text).mapError .halt

structure Workspace where
  indexed : Dict String (List Symbol)
  byName : Dict String (List Symbol)
  deriving DecidableEq, Repr

namespace Workspace

def empty : Workspace := ⟨.empty, .empty⟩

def group (d : Dict String (List Symbol)) (s : Symbol) : Dict String (List Symbol) :=
  d.put s.name ((d.get? s.name).getD [] ++ [s])

def grouped (indexed : Dict String (List Symbol)) : Dict String (List Symbol) :=
  indexed.values.flatten.foldl group .empty

def index (w : Workspace) (host : Host) (uri text : String) :
    Except Unanalyzed (List Diagnostic × Workspace) := do
  let a ← host.analyze uri text
  let indexed := w.indexed.put uri a.symbols
  return (a.diagnostics, ⟨indexed, grouped indexed⟩)

def lookup (w : Workspace) (name : String) : Option Symbol := (w.byName.get? name).bind List.head?

def documentSymbols (w : Workspace) (uri : String) : List Symbol := (w.indexed.get? uri).getD []

def refresh (w : Workspace) (host : Host) (uri text : String) :
    Except Unanalyzed (List Diagnostic) × Workspace :=
  match w.index host uri text with
  | .ok (diagnostics, w) => (.ok diagnostics, w)
  | .error cause => (.error cause, w)

def change (w : Workspace) (host : Host) (uri : String) (texts : List String) :
    Except Unanalyzed (Option (List Diagnostic)) × Workspace :=
  match texts.getLast? with
  | none => (.ok none, w)
  | some text =>
      let (published, w) := w.refresh host uri text
      (published.map some, w)

def symbolAt (w : Workspace) (host : Host) (uri : String) (line character : Nat) : Option Symbol :=
  let word := host.wordAt uri line character
  if word = "" then none else w.lookup word

def hover (w : Workspace) (host : Host) (uri : String) (line character : Nat) : Option String :=
  (w.symbolAt host uri line character).map Symbol.detail

def definition (w : Workspace) (host : Host) (uri : String) (line character : Nat) : Option Location :=
  (w.symbolAt host uri line character).map fun s => ⟨s.uri, s.range⟩

end Workspace
end Baby
