import Mathlib.Data.List.Basic
import Mathlib.Data.List.Induction
import Baby.Workspace

/-! The index of an editor's documents is made from their latest texts alone, and from the order in which
they were first indexed; what was in a document before is forgotten. -/
namespace Baby

/-! Histories -/

inductive Notice where
  | opened (uri text : String)
  | changed (uri : String) (texts : List String)
  deriving DecidableEq, Repr

namespace Notice

def update? : Notice → Option (String × String)
  | opened uri text => some (uri, text)
  | changed uri texts => texts.getLast?.map fun text => (uri, text)

def reading? (n : Notice) (host : Host) : Option (String × String) :=
  n.update?.filter fun u => (host.analyze u.1 u.2).isOk

end Notice

abbrev History := List (Host × Notice)

def readings (h : History) : List (String × String) := h.filterMap fun e => e.2.reading? e.1

def latest? (h : History) (uri : String) : Option String :=
  ((readings h).filter fun u => u.1 = uri).getLast?.map Prod.snd

def documents (h : History) : List String := ((readings h).map Prod.fst).eraseDups

def topLevel (text : String) : List Tree :=
  match parse text with
  | .ok parsed => parsed.tree.statements
  | .error _ => []

def Tree.defines (name : String) : Tree → Bool
  | .define n _ _ _ => n = name
  | _ => false

def symbolsIn (uri text : String) : List Symbol := (topLevel text).filterMap (Symbol.ofTree? uri)

def latestSymbols (h : History) (uri : String) : List Symbol :=
  ((latest? h uri).map (symbolsIn uri)).getD []

def firstDefinition? (h : History) (name : String) : Option Symbol :=
  (documents h).findSome? fun uri => do
    let text ← latest? h uri
    let tree ← (topLevel text).find? (Tree.defines name)
    Symbol.ofTree? uri tree

section
variable {h : History} {host : Host} {n : Notice} {uri text name : String}

theorem readingsMore (seen : n.reading? host = some (uri, text)) :
    readings (h ++ [(host, n)]) = readings h ++ [(uri, text)] := by
  simp [readings, List.filterMap_append, seen]

theorem readingsSame (unseen : n.reading? host = none) : readings (h ++ [(host, n)]) = readings h := by
  simp [readings, List.filterMap_append, unseen]

theorem latestMore (seen : n.reading? host = some (uri, text)) (other : String) :
    latest? (h ++ [(host, n)]) other = if other = uri then some text else latest? h other := by
  unfold latest?
  rw [readingsMore seen, List.filter_append]
  by_cases same : other = uri
  · simp [same]
  · have apart : ¬ uri = other := fun equal => same equal.symm
    simp [same, apart]

theorem documentsMore (seen : n.reading? host = some (uri, text)) :
    documents (h ++ [(host, n)]) = if uri ∈ documents h then documents h else documents h ++ [uri] := by
  unfold documents
  rw [readingsMore seen, List.map_append]
  exact eraseDupsConcat ..

theorem definesSymbol (uri name : String) (t : Tree) :
    (Symbol.ofTree? uri t).any (fun s => s.name = name) = t.defines name := by
  unfold Symbol.ofTree?
  split <;> simp_all [Tree.defines]

end

/-! Notifications -/

namespace Workspace

def receive (w : Workspace) (host : Host) : Notice → Workspace
  | .opened uri text => (w.refresh host uri text).2
  | .changed uri texts => (w.change host uri texts).2

def after (h : History) : Workspace := h.foldl (fun w e => w.receive e.1 e.2) .empty

/- The index tells of the latest texts, and its two halves of the same symbols. -/
structure Follows (w : Workspace) (h : History) : Prop where
  keys : w.indexed.keys = documents h
  symbols : ∀ uri, w.indexed.get? uri = (latest? h uri).map (symbolsIn uri)
  names : w.byName = grouped w.indexed

section
variable {w : Workspace} {h : History} {host : Host} {n : Notice} {uri text : String}

theorem receiveUpdate (w : Workspace) (host : Host) (n : Notice) :
    w.receive host n = (n.update?.map fun u => (w.refresh host u.1 u.2).2).getD w := by
  cases n with
  | opened uri text => rfl
  | changed uri texts =>
    simp only [receive, change, Notice.update?]
    cases texts.getLast? <;> rfl

theorem refreshUnread (unread : (host.analyze uri text).isOk = false) : (w.refresh host uri text).2 = w := by
  unfold refresh index
  cases analyzed : host.analyze uri text with
  | error cause => rfl
  | ok result => simp [analyzed, Except.isOk, Except.toBool] at unread

theorem analyzedSymbols {a : Analysis} (analyzed : host.analyze uri text = .ok a) :
    a.symbols = symbolsIn uri text := by
  unfold Host.analyze Baby.analyze at analyzed
  split at analyzed
  · cases analyzed
  · unfold symbolsIn topLevel
    cases parsed : parse text with
    | error halt =>
      rw [parsed] at analyzed
      cases analyzed
    | ok result =>
      rw [parsed] at analyzed
      cases analyzed
      rfl

theorem refreshRead (w : Workspace) (read : (host.analyze uri text).isOk = true) :
    (w.refresh host uri text).2.indexed = w.indexed.put uri (symbolsIn uri text) ∧
      (w.refresh host uri text).2.byName = grouped (w.indexed.put uri (symbolsIn uri text)) := by
  cases analyzed : host.analyze uri text with
  | error cause => simp [analyzed, Except.isOk, Except.toBool] at read
  | ok a =>
    rw [← analyzedSymbols analyzed]
    unfold refresh index
    rw [analyzed]
    exact ⟨rfl, rfl⟩

theorem receiveUnread (w : Workspace) (unseen : n.reading? host = none) : w.receive host n = w := by
  rw [receiveUpdate]
  unfold Notice.reading? at unseen
  cases update : n.update? with
  | none => rfl
  | some u =>
    rw [update, Option.filter_eq_none_iff] at unseen
    rw [Option.map_some, Option.getD_some]
    exact refreshUnread (by simpa using unseen u rfl)

theorem receiveRead (w : Workspace) (seen : n.reading? host = some (uri, text)) :
    (w.receive host n).indexed = w.indexed.put uri (symbolsIn uri text) ∧
      (w.receive host n).byName = grouped (w.receive host n).indexed := by
  obtain ⟨update, read⟩ := Option.filter_eq_some_iff.1 seen
  rw [receiveUpdate, update, Option.map_some, Option.getD_some]
  obtain ⟨indexed, named⟩ := refreshRead w read
  exact ⟨indexed, named.trans (congrArg grouped indexed.symm)⟩

theorem Follows.receive (follows : w.Follows h) (host : Host) (n : Notice) :
    (w.receive host n).Follows (h ++ [(host, n)]) := by
  cases seen : n.reading? host with
  | none =>
    rw [receiveUnread w seen]
    constructor
    · rw [follows.keys, documents, documents, readingsSame seen]
    · intro uri
      rw [follows.symbols, latest?, latest?, readingsSame seen]
    · exact follows.names
  | some u =>
    obtain ⟨uri, text⟩ := u
    obtain ⟨indexed, named⟩ := receiveRead w seen
    constructor
    · rw [indexed, Dict.keysPut, follows.keys, documentsMore seen]
    · intro other
      rw [indexed, latestMore seen]
      by_cases same : other = uri
      · rw [same, Dict.getPutSelf, if_pos rfl]
        rfl
      · rw [Dict.getPutOther _ _ same, if_neg same, follows.symbols]
    · exact named

theorem afterFollows (h : History) : (after h).Follows h := by
  induction h using List.reverseRecOn with
  | nil => exact ⟨rfl, fun _ => rfl, rfl⟩
  | append_singleton h e ih =>
    rw [after, List.foldl_append]
    exact ih.receive e.1 e.2

end

/-! Symbols by name -/

structure Grouping (d : Dict String (List Symbol)) (all : List Symbol) : Prop where
  names : d.keys = (all.map Symbol.name).eraseDups
  under : ∀ name, (d.get? name).getD [] = all.filter fun s => s.name = name

theorem Grouping.group {d : Dict String (List Symbol)} {all : List Symbol} (h : Grouping d all)
    (s : Symbol) : Grouping (group d s) (all ++ [s]) := by
  constructor
  · unfold Workspace.group
    rw [Dict.keysPut, h.names, List.map_append]
    exact (eraseDupsConcat ..).symm
  · intro name
    unfold Workspace.group
    rw [List.filter_append]
    by_cases same : name = s.name
    · rw [same, Dict.getPutSelf, ← h.under]
      simp
    · have apart : ¬ s.name = name := fun equal => same equal.symm
      rw [Dict.getPutOther _ _ same, h.under]
      simp [apart]

theorem groupedGrouping (indexed : Dict String (List Symbol)) :
    Grouping (grouped indexed) indexed.values.flatten := by
  unfold grouped
  generalize indexed.values.flatten = all
  induction all using List.reverseRecOn with
  | nil => exact ⟨rfl, fun _ => rfl⟩
  | append_singleton all s ih =>
    rw [List.foldl_append]
    exact ih.group s

theorem Grouping.first {d : Dict String (List Symbol)} {all : List Symbol} (h : Grouping d all)
    (name : String) : (d.get? name).bind List.head? = all.find? fun s => s.name = name := by
  rw [← List.head?_filter, ← h.under]
  cases d.get? name <;> rfl

end Workspace

/-! Answers -/

theorem flattenFilterMap {α β : Type} (f : α → Option (List β)) (l : List α) :
    (l.filterMap f).flatten = l.flatMap fun a => (f a).getD [] := by
  induction l with
  | nil => rfl
  | cons a l ih => cases here : f a <;> simp [here, ih]

namespace Workspace
variable {w w' : Workspace} {h h' : History}

theorem Follows.values (follows : w.Follows h) :
    w.indexed.values.flatten = (documents h).flatMap (latestSymbols h) := by
  rw [Dict.valuesGet, follows.keys, flattenFilterMap]
  simp only [follows.symbols]
  rfl

theorem Follows.grouping (follows : w.Follows h) :
    Grouping w.byName ((documents h).flatMap (latestSymbols h)) := by
  rw [follows.names, ← follows.values]
  exact groupedGrouping w.indexed

theorem Follows.lookup (follows : w.Follows h) (name : String) :
    w.lookup name = firstDefinition? h name := by
  unfold Workspace.lookup firstDefinition?
  rw [follows.grouping.first, List.find?_flatMap]
  congr 1
  funext uri
  unfold latestSymbols
  cases latest? h uri with
  | none => rfl
  | some text =>
    show (symbolsIn uri text).find? _ = _
    unfold symbolsIn
    rw [List.find?_filterMap]
    simp only [definesSymbol]
    rfl

end Workspace

/-- After any notifications the index holds, for the documents in the order in which they were first
indexed, the symbols of their latest texts that could be analysed, and the same symbols by name; the first
definition of a name is found in the first document that now has one. So it is all one how the documents
came to their texts, and which texts could not be analysed meanwhile. -/
theorem indexFollowsTexts (h : History) :
    (Workspace.after h).indexed.keys = documents h ∧
    (∀ uri, (Workspace.after h).indexed.get? uri = (latest? h uri).map (symbolsIn uri)) ∧
    Workspace.Grouping (Workspace.after h).byName ((documents h).flatMap (latestSymbols h)) ∧
    (∀ name, (Workspace.after h).lookup name = firstDefinition? h name) ∧
    ∀ h', documents h = documents h' → (∀ uri, latest? h uri = latest? h' uri) →
      (∀ uri, (Workspace.after h).documentSymbols uri = (Workspace.after h').documentSymbols uri) ∧
      ∀ (host host' : Host) uri line character,
        host.wordAt uri line character = host'.wordAt uri line character →
        (Workspace.after h).definition host uri line character =
          (Workspace.after h').definition host' uri line character ∧
        (Workspace.after h).hover host uri line character =
          (Workspace.after h').hover host' uri line character := by
  have follows := Workspace.afterFollows h
  refine ⟨follows.keys, follows.symbols, follows.grouping, follows.lookup, ?_⟩
  intro h' order texts
  have follows' := Workspace.afterFollows h'
  have found (name : String) : (Workspace.after h).lookup name = (Workspace.after h').lookup name := by
    rw [follows.lookup, follows'.lookup]
    unfold firstDefinition?
    simp only [order, texts]
  constructor
  · intro uri
    unfold Workspace.documentSymbols
    rw [follows.symbols, follows'.symbols, texts]
  · intro host host' uri line character word
    have same : (Workspace.after h).symbolAt host uri line character =
        (Workspace.after h').symbolAt host' uri line character := by
      unfold Workspace.symbolAt
      rw [word]
      dsimp only
      rw [found]
    unfold Workspace.definition Workspace.hover
    rw [same]
    exact ⟨rfl, rfl⟩

def roomyHost : Host := ⟨fun _ => false, fun _ _ _ => "f"⟩

def narrowHost : Host := ⟨fun text => 8 < text.length, fun _ _ _ => "f"⟩

-- A document loses a name, which is then found in the next document.
def retold : History :=
  [(roomyHost, .opened "a" "let f = 1"), (roomyHost, .opened "b" "let f = 2"),
    (roomyHost, .changed "a" ["let", "f"]), (narrowHost, .changed "a" ["let f = 3"])]

def toldOnce : History :=
  [(narrowHost, .changed "a" ["f"]), (narrowHost, .changed "b" []), (roomyHost, .opened "b" "let f = 2")]

theorem retoldReadings :
    readings retold = [("a", "let f = 1"), ("b", "let f = 2"), ("a", "f")] := by decide +kernel

theorem toldOnceReadings : readings toldOnce = [("a", "f"), ("b", "let f = 2")] := by decide +kernel

theorem indexFollowsTextsRetold :
    (Workspace.after retold).lookup "f" = some ⟨"f", .value, "b", 0, "let f"⟩ ∧
      (Workspace.after retold).hover roomyHost "a" 0 1 = (Workspace.after toldOnce).hover narrowHost "a" 0 1 := by
  obtain ⟨_, _, _, found, alike⟩ := indexFollowsTexts retold
  have order : documents retold = documents toldOnce := by
    unfold documents
    rw [retoldReadings, toldOnceReadings]
    rfl
  have texts (uri : String) : latest? retold uri = latest? toldOnce uri := by
    unfold latest?
    rw [retoldReadings, toldOnceReadings]
    by_cases first : "a" = uri
    · simp [← first]
    · simp [List.filter_cons, first]
  have defined : firstDefinition? retold "f" = some ⟨"f", .value, "b", 0, "let f"⟩ := by decide +kernel
  obtain ⟨_, answers⟩ := alike toldOnce order texts
  exact ⟨(found "f").trans defined, (answers roomyHost narrowHost "a" 0 1 rfl).2⟩

end Baby
