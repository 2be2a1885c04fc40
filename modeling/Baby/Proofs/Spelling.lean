import Baby.Proofs.Inspection
import Baby.Proofs.Rereading

/-! Two spellings of one program. A definition and an assignment do the same, and so do the two signs
for a copy; the plain form of a tree has only assignments with the first sign, and no lines. What a
store holds is seen through such a form of the function bodies in it: nothing that evaluation reads
from a store or does to it depends on more. -/
namespace Baby

namespace Op

def plain : Op → Op
  | assignVal => assign
  | op => op

end Op

namespace Tree

mutual

@[simp] def plain : Tree → Tree
  | program body _ => program (plainEach body) 0
  | block body _ => block (plainEach body) 0
  | define name op value _ | assign name op value _ => assign name op.plain (plain value) 0
  | ret value _ => ret (plain value) 0
  | statement value _ => statement (plain value) 0
  | ident name _ => ident name 0
  | number n _ => number n 0
  | string s _ => string s 0
  | boolean b _ => boolean b 0
  | null _ => null 0
  | array elements _ => array (plainEach elements) 0
  | hash pairs _ => hash (plainPairs pairs) 0
  | function params body _ => function params (plain body) 0
  | unary op operand _ => unary op (plain operand) 0
  | binary op left right _ => binary op (plain left) (plain right) 0
  | cond test yes no _ => cond (plain test) (plain yes) (plain no) 0
  | loop test body _ => loop (plain test) (plain body) 0
  | call callee args _ => call (plain callee) (plainEach args) 0
  | index target place _ => index (plain target) (plain place) 0
  | dot target key _ => dot (plain target) (plain key) 0
  | missing => missing
  | unknown tag => unknown tag

@[simp] def plainEach : List Tree → List Tree
  | [] => []
  | t :: ts => plain t :: plainEach ts

@[simp] def plainPairs : List (Tree × Tree) → List (Tree × Tree)
  | [] => []
  | (k, v) :: ps => (plain k, plain v) :: plainPairs ps

end

mutual

theorem plainUnlined (t : Tree) : t.unlined.plain = t.plain := by
  cases t with
  | program ts | block ts | array ts => simp [plainUnlinedEach ts]
  | hash ps => simp [plainUnlinedPairs ps]
  | define _ _ t | assign _ _ t | ret t | statement t | function _ t | unary _ t => simp [plainUnlined t]
  | binary _ t u | loop t u | index t u | dot t u => simp [plainUnlined t, plainUnlined u]
  | cond t u v => simp [plainUnlined t, plainUnlined u, plainUnlined v]
  | call t ts => simp [plainUnlined t, plainUnlinedEach ts]
  | _ => simp

theorem plainUnlinedEach (ts : List Tree) : plainEach (unlinedEach ts) = plainEach ts := by
  cases ts with
  | nil => simp
  | cons t ts => simp [plainUnlined t, plainUnlinedEach ts]

theorem plainUnlinedPairs (ps : List (Tree × Tree)) : plainPairs (unlinedPairs ps) = plainPairs ps := by
  cases ps with
  | nil => simp
  | cons p ps =>
    obtain ⟨k, v⟩ := p
    simp [plainUnlined k, plainUnlined v, plainUnlinedPairs ps]

end

mutual

theorem renderUnlined (t : Tree) : t.unlined.render = t.render := by
  cases t with
  | program ts | block ts | array ts => simp [render, renderUnlinedEach ts]
  | hash ps => simp [render, renderUnlinedPairs ps]
  | define _ _ t | assign _ _ t | ret t | statement t | function _ t | unary _ t =>
    simp [render, renderUnlined t]
  | binary _ t u | loop t u | index t u | dot t u => simp [render, renderUnlined t, renderUnlined u]
  | cond t u v =>
    have same := renderUnlined v
    cases v <;> simp_all [render, renderUnlined t, renderUnlined u]
  | call t ts => simp [render, renderUnlined t, renderUnlinedEach ts]
  | _ => simp [render]

theorem renderUnlinedEach (ts : List Tree) : renderEach (unlinedEach ts) = renderEach ts := by
  cases ts with
  | nil => simp
  | cons t ts => simp [renderEach, renderUnlined t, renderUnlinedEach ts]

theorem renderUnlinedPairs (ps : List (Tree × Tree)) : renderPairs (unlinedPairs ps) = renderPairs ps := by
  cases ps with
  | nil => simp
  | cons p ps =>
    obtain ⟨k, v⟩ := p
    simp [renderPairs, renderUnlined k, renderUnlined v, renderUnlinedPairs ps]

end

mutual

theorem heightPlain (t : Tree) : t.plain.height = t.height := by
  cases t with
  | program ts | block ts | array ts => simp [height, heightPlainEach ts]
  | hash ps => simp [height, heightPlainPairs ps]
  | define _ _ t | assign _ _ t | ret t | statement t | function _ t | unary _ t => simp [height, heightPlain t]
  | binary _ t u | loop t u | index t u | dot t u => simp [height, heightPlain t, heightPlain u]
  | cond t u v => simp [height, heightPlain t, heightPlain u, heightPlain v]
  | call t ts => simp [height, heightPlain t, heightPlainEach ts]
  | _ => simp [height]

theorem heightPlainEach (ts : List Tree) : heightEach (plainEach ts) = heightEach ts := by
  cases ts with
  | nil => simp
  | cons t ts => simp [heightEach, heightPlain t, heightPlainEach ts]

theorem heightPlainPairs (ps : List (Tree × Tree)) : heightPairs (plainPairs ps) = heightPairs ps := by
  cases ps with
  | nil => simp
  | cons p ps =>
    obtain ⟨k, v⟩ := p
    simp [heightPairs, heightPlain k, heightPlain v, heightPlainPairs ps]

end

theorem heightUnlined (t : Tree) : t.unlined.height = t.height := by
  rw [← heightPlain t.unlined, plainUnlined, heightPlain]

theorem plainMissing {t : Tree} : t.plain = missing ↔ t = missing := by
  cases t <;> simp

theorem plainEachMap (ts : List Tree) : plainEach ts = ts.map plain := by
  induction ts with
  | nil => simp
  | cons t ts ih => simp [ih]

theorem plainPairsMap (ps : List (Tree × Tree)) : plainPairs ps = ps.map (Prod.map plain plain) := by
  induction ps with
  | nil => simp
  | cons p ps ih =>
    obtain ⟨k, v⟩ := p
    simp [ih]

theorem unlinedEachMap (ts : List Tree) : unlinedEach ts = ts.map unlined := by
  induction ts with
  | nil => simp
  | cons t ts ih => simp [ih]

theorem unlinedPairsMap (ps : List (Tree × Tree)) : unlinedPairs ps = ps.map (Prod.map unlined unlined) := by
  induction ps with
  | nil => simp
  | cons p ps ih =>
    obtain ⟨k, v⟩ := p
    simp [ih]

theorem partsPlain (t : Tree) : t.plain.parts = t.parts.map plain := by
  cases t <;> simp [parts, plainEachMap, plainPairsMap, Function.comp_def]

theorem partsUnlined (t : Tree) : t.unlined.parts = t.parts.map unlined := by
  cases t <;> simp [parts, unlinedEachMap, unlinedPairsMap, Function.comp_def]

end Tree

/-! Stores -/

namespace Object
variable {f : Tree → Tree}

def through (f : Tree → Tree) : Object → Object
  | closure params body home => closure params (f body) home
  | o => o

@[simp] theorem throughTag (o : Object) : (o.through f).tag = o.tag := by
  cases o <;> rfl

end Object

namespace Store
variable {f : Tree → Tree} {st st' : Store}

def through (f : Tree → Tree) (st : Store) : Store := ⟨st.objects.map (·.through f), st.scopes, #[]⟩

@[simp] theorem throughAt (a : Addr) :
    (st.through f).objects[a]? = st.objects[a]?.map (·.through f) := by
  simp [through]

@[simp] theorem throughSize : (st.through f).objects.size = st.objects.size := by
  simp [through]

@[simp] theorem throughObject (v : Value) :
    (st.through f).object? v = (st.object? v).map (·.through f) := by
  cases v <;> simp [object?]

@[simp] theorem throughTag (v : Value) : (st.through f).tag v = st.tag v := by
  cases v with
  | ref a => simp [tag, Function.comp_def]
  | _ => rfl

@[simp] theorem throughHashKey (v : Value) : (st.through f).hashKey? v = st.hashKey? v := by
  cases v with
  | ref a =>
    simp only [hashKey?, throughAt]
    cases st.objects[a]? with
    | none => rfl
    | some o => cases o <;> rfl
  | _ => rfl

theorem chainSame (same : st.scopes = st'.scopes) (id : ScopeId) : st.chain id = st'.chain id := by
  have within (n : Nat) (id : ScopeId) : st.chainWithin n id = st'.chainWithin n id := by
    induction n generalizing id with
    | zero => rfl
    | succ n ih => simp only [chainWithin, scope, same, funext ih]
  rw [chain, chain, same, within]

theorem resolveSame (same : st.scopes = st'.scopes) (id : ScopeId) (name : String) :
    st.resolve id name = st'.resolve id name := by
  simp only [resolve, chainSame same, scope, same]

@[simp] theorem throughResolve (id : ScopeId) (name : String) :
    (st.through f).resolve id name = st.resolve id name :=
  resolveSame (by rfl) id name

@[simp] theorem throughLookup (id : ScopeId) (name : String) :
    (st.through f).lookup id name = st.lookup id name := by
  simp only [lookup, throughResolve]
  rfl

/-! Replies -/

theorem throughEqual (n : Nat) (active : List (Value × Value)) (v w : Value) :
    (st.through f).equalWithin n active v w = st.equalWithin n active v w := by
  induction n generalizing active v w with
  | zero => rfl
  | succ n ih =>
    simp only [equalWithin, throughObject, ih]
    congr 1
    cases st.object? v with
    | none => rfl
    | some o =>
      cases st.object? w with
      | none => cases o <;> rfl
      | some o' => cases o <;> cases o' <;> rfl

theorem throughOperands (op : Op) (v w : Value) :
    (st.through f).operandsReply op v w = st.operandsReply op v w := by
  simp only [operandsReply, throughObject, throughTag]
  cases st.object? v with
  | none => rfl
  | some o =>
    cases st.object? w with
    | none => cases o <;> rfl
    | some o' => cases o <;> cases o' <;> rfl

theorem throughBinary (depth : Nat) (op : Op) (v w : Value) :
    (st.through f).binaryReply depth op v w = st.binaryReply depth op v w := by
  cases op <;> simp only [binaryReply, throughEqual, throughOperands]

theorem throughUnary (op : Op) (v : Value) : (st.through f).unaryReply op v = st.unaryReply op v := by
  simp only [unaryReply, throughObject, throughTag]
  cases st.object? v with
  | none => rfl
  | some o => cases o <;> rfl

theorem throughName (id : ScopeId) (name : String) :
    (st.through f).nameReply id name = st.nameReply id name := by
  simp only [nameReply, throughLookup]

theorem throughIndex (v place : Value) : (st.through f).indexReply v place = st.indexReply v place := by
  simp only [indexReply, throughObject, throughTag]
  cases st.object? v with
  | none => rfl
  | some o =>
    cases st.object? place with
    | none => cases o <;> rfl
    | some o' => cases o <;> cases o' <;> rfl

theorem throughAttribute (v key : Value) :
    (st.through f).attributeReply v key = st.attributeReply v key := by
  simp only [attributeReply, throughObject, throughTag, throughHashKey]
  cases st.object? v with
  | none => rfl
  | some o => cases o <;> rfl

theorem throughElementAt (b : Builtin) (v place : Value) :
    (st.through f).elementAt b v place = st.elementAt b v place := by
  simp only [elementAt, throughObject, throughTag]
  cases st.object? v with
  | none => rfl
  | some o =>
    cases st.object? place with
    | none => cases o <;> rfl
    | some o' => cases o <;> cases o' <;> rfl

theorem throughLibrary (b : Builtin) (args : List Value) :
    (st.through f).libraryReply b args = st.libraryReply b args := by
  unfold libraryReply
  split
  all_goals simp only [lengthReply, headReply, tailReply, restReply, getReply, insertReply, appendReply,
    emptyReply, throughObject, throughTag, throughElementAt]
  all_goals
    cases st.object? _ with
    | none => rfl
    | some o => cases o <;> rfl

/-! Acts -/

theorem throughAlloc (st : Store) (o : Object) :
    (st.through f).alloc (o.through f) = ((st.alloc o).1, (st.alloc o).2.through f) := by
  simp [alloc, through]

theorem throughCopy (v : Value) :
    (st.through f).copy v = ((st.copy v).1, (st.copy v).2.through f) := by
  rw [copy, copy, throughObject]
  cases st.object? v with
  | none => rfl
  | some o =>
    simp only [Option.map_some, Object.throughTag, throughAlloc]
    split <;> rfl

theorem throughBind (id : ScopeId) (name : String) (v : Value) :
    (st.through f).bind id name v = (st.bind id name v).through f := rfl

theorem throughBindAll (id : ScopeId) (names : List String) (vs : List Value) :
    (st.through f).bindAll id names vs = (st.bindAll id names vs).through f := by
  induction names generalizing st vs with
  | nil => rfl
  | cons name names ih =>
    cases vs with
    | nil => rfl
    | cons v vs => simp only [bindAll, throughBind, ih]

theorem throughOverwrite (v w : Value) :
    (st.through f).overwrite v w = (st.overwrite v w).through f := by
  simp only [overwrite, throughObject]
  cases v with
  | ref a =>
    cases st.object? (.ref a) with
    | none => rfl
    | some old =>
      cases st.object? w with
      | none => rfl
      | some new =>
        simp only [Option.map_some, Object.throughTag]
        split
        · simp [write, through]
        · rfl
  | _ => rfl

theorem throughAssign (id : ScopeId) (name : String) (v : Value) :
    (st.through f).assign id name v = ((st.assign id name v).1, (st.assign id name v).2.through f) := by
  have scopes (id : ScopeId) : (st.through f).scope id = st.scope id := rfl
  simp only [assign, throughResolve, throughCopy, throughBind, throughOverwrite, throughTag, scopes]
  cases st.resolve id name with
  | none => rfl
  | some owner =>
    dsimp only
    cases (st.scope owner).names.get? name with
    | none => rfl
    | some held =>
      dsimp only
      split
      · rfl
      · split <;> rfl

/-! Printing -/

theorem throughInside (v : Value) : (st.through f).inside v = st.inside v := by
  rw [inside, inside, throughObject, Option.map_map]
  congr 2
  funext o
  cases o <;> rfl

theorem throughContainer (v : Value) : (st.through f).isContainer v = st.isContainer v :=
  congrArg Tag.isContainer (throughTag v)

theorem throughBodyHeight (kept : ∀ t, (f t).height = t.height) (v : Value) :
    (st.through f).bodyHeight v = st.bodyHeight v := by
  rw [bodyHeight, bodyHeight, throughObject, Option.map_map]
  congr 2
  funext o
  cases o with
  | closure params body home => exact kept body
  | _ => rfl

theorem throughText (kept : ∀ t, (f t).render = t.render) (v : Value) : (st.through f).text v = st.text v := by
  cases v with
  | ref a =>
    funext texts
    show ((st.through f).objects[a]?.map (Object.text · texts)).getD "" = (st.objects[a]?.map _).getD ""
    rw [throughAt, Option.map_map]
    congr 2
    funext o
    cases o with
    | closure params body home => simp only [Function.comp, Object.through, Object.text, kept]
    | _ => rfl
  | _ => rfl

theorem throughInspect (tall : ∀ t, (f t).height = t.height) (kept : ∀ t, (f t).render = t.render) (n : Nat)
    (path : List Value) (v : Value) : (st.through f).inspectWithin n path v = st.inspectWithin n path v := by
  induction n generalizing path v with
  | zero => rfl
  | succ n ih =>
    rw [inspectStep, inspectStep, throughContainer, throughBodyHeight tall, throughInside, throughText kept,
      funext (ih _)]
    simp only [short, throughTag]

/- The limit is met alike, whatever the bodies of functions are printed as. -/
theorem throughPrintable (tall : ∀ t, (f t).height = t.height) (n : Nat) (path : List Value) (v : Value) :
    ((st.through f).inspectWithin n path v).isSome = (st.inspectWithin n path v).isSome := by
  induction n generalizing path v with
  | zero => rfl
  | succ n ih =>
    rw [inspectStep, inspectStep, throughContainer, throughBodyHeight tall, throughInside]
    split
    · rfl
    · split
      · rw [Option.isSome_map, Option.isSome_map, mapMIsSome, mapMIsSome, funext (ih _)]
      · rfl

end Store

namespace Act
variable {f : Tree → Tree}

theorem runPrinted (act : Act) (quiet : ∀ v, act ≠ .print v) (st : Store) :
    (act.run st).2.printed = st.printed := by
  have copied (v : Value) : (st.copy v).2.printed = st.printed := by
    unfold Store.copy
    split
    · split <;> rfl
    · rfl
  cases act with
  | alloc o => rfl
  | print v => exact absurd rfl (quiet v)
  | copy v => exact copied v
  | bind id name v => rfl
  | assign id name v =>
    simp only [run, Store.assign]
    split
    · exact copied v
    · split
      · rfl
      · split
        · rfl
        · split
          · unfold Store.overwrite
            split
            · split <;> rfl
            · rfl
          · rfl
  | enter home params args =>
    have bound (st : Store) (id : ScopeId) (names : List String) (vs : List Value) :
        (st.bindAll id names vs).printed = st.printed := by
      induction names generalizing st vs with
      | nil => rfl
      | cons name names ih =>
        cases vs with
        | nil => rfl
        | cons v vs => exact ih (st.bind id name v) vs
    exact bound _ _ params args

theorem runThrough (act : Act) (same : ∀ o, act ≠ .alloc o) (quiet : ∀ v, act ≠ .print v) (st : Store) :
    act.run (st.through f) = ((act.run st).1, (act.run st).2.through f) := by
  cases act with
  | alloc o => exact absurd rfl (same o)
  | print v => exact absurd rfl (quiet v)
  | copy v => exact Store.throughCopy v
  | bind id name v => rfl
  | assign id name v => exact Store.throughAssign id name v
  | enter home params args =>
    have opened : (st.through f).openScope (some home) =
        ((st.openScope (some home)).1, (st.openScope (some home)).2.through f) := rfl
    simp only [run, opened, Store.throughBindAll]

end Act
end Baby
