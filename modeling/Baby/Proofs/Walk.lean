import Mathlib.Data.List.Forall2
import Baby.Eval

/-! Evaluation carries whatever its parts carry. A relation between evaluations on two machines that is kept
by the few things an evaluation can do is kept by evaluation itself: every construct of the language is gone
through once, here, for all such relations. -/
namespace Baby
open Machine (look perform visit)

/-! Trees -/

def Tree.parts : Tree → List Tree
  | .program body _ | .block body _ => body
  | .define _ _ value _ | .assign _ _ value _ | .ret value _ | .statement value _ => [value]
  | .array elements _ => elements
  | .hash pairs _ => pairs.map Prod.fst ++ pairs.map Prod.snd
  | .function _ body _ => [body]
  | .unary _ operand _ => [operand]
  | .binary _ left right _ => [left, right]
  | .cond test yes no _ => [test, yes, no]
  | .loop test body _ => [test, body]
  | .call callee args _ => callee :: args
  | .index target place _ => [target, place]
  | .dot target key _ => [target, key]
  | .ident .. | .number .. | .string .. | .boolean .. | .null _ | .missing | .unknown _ => []

def Tree.evaluated : Tree → List Tree
  | .function .. => []
  | t => t.parts

def Tree.bindsOrCalls : Tree → Bool
  | .define .. | .assign .. | .call .. => true
  | _ => false

def Tree.binds? : Tree → Option (String × Op × Tree)
  | .define name op value _ | .assign name op value _ => some (name, op, value)
  | _ => none

def Tree.Rebinds (name : String) : Tree → Prop
  | .define n op _ _ | .assign n op _ _ => n = name ∧ op = .assignRef
  | _ => False

def Stop.isLimit : Stop → Bool
  | depth | rounds => true
  | fault .. | returned .. => false

/-! Terms -/

/- What is known while two evaluations go on side by side: of their stores, of the trees and the depths that
they are at, and, world by world, of values. Without `acts` nothing is bound, called or printed. -/
structure Terms where
  World : Type
  Before : World → World → Prop
  Sees : World → Store → Store → Prop
  Good : World → Value → Prop
  Filed : World → Dict HashKey Entry → Prop
  Home : World → ScopeId → Prop
  Twins : Tree → Tree → Prop
  Bodies : Tree → Tree → Prop
  Depths : Nat → Nat → Prop
  acts : Prop

inductive Post : Type → Type 1 where
  | any {α : Type} : Post α
  | value : Post Value
  | values : Post (List Value)
  | result : Post (Option Value)
  | entries : Post (Dict HashKey Entry)

namespace Terms
variable (T : Terms)

def Holds (w : T.World) : {α : Type} → Post α → α → Prop
  | _, .any, _ => True
  | _, .value, v => T.Good w v
  | _, .values, vs => ∀ v ∈ vs, T.Good w v
  | _, .result, r => ∀ v, r = some v → T.Good w v
  | _, .entries, d => T.Filed w d

inductive Shape : Tree → Tree → Prop where
  | program {body body' line line'} (each : List.Forall₂ T.Twins body body') :
      Shape (.program body line) (.program body' line')
  | block {body body' line line'} (each : List.Forall₂ T.Twins body body') :
      Shape (.block body line) (.block body' line')
  | binding {t t' name op op' value value'} (acts : T.acts) (left : t.binds? = some (name, op, value))
      (right : t'.binds? = some (name, op', value')) (refs : op = .assignRef ↔ op' = .assignRef)
      (values : T.Twins value value') : Shape t t'
  | ret {value value' line line'} (values : T.Twins value value') : Shape (.ret value line) (.ret value' line')
  | statement {value value' line line'} (values : T.Twins value value') :
      Shape (.statement value line) (.statement value' line')
  | ident {name line line'} : Shape (.ident name line) (.ident name line')
  | number {n line line'} : Shape (.number n line) (.number n line')
  | string {s line line'} : Shape (.string s line) (.string s line')
  | boolean {b line line'} : Shape (.boolean b line) (.boolean b line')
  | null {line line'} : Shape (.null line) (.null line')
  | array {elements elements' line line'} (each : List.Forall₂ T.Twins elements elements') :
      Shape (.array elements line) (.array elements' line')
  | hash {pairs pairs' line line'}
      (each : List.Forall₂ (fun p q => T.Twins p.1 q.1 ∧ T.Twins p.2 q.2) pairs pairs') :
      Shape (.hash pairs line) (.hash pairs' line')
  | function {params body body' line line'} (bodies : T.Bodies body body') :
      Shape (.function params body line) (.function params body' line')
  | unary {op e e' line line'} (operands : T.Twins e e') : Shape (.unary op e line) (.unary op e' line')
  | binary {op left left' right right' line line'} (lefts : T.Twins left left') (rights : T.Twins right right') :
      Shape (.binary op left right line) (.binary op left' right' line')
  | cond {test test' yes yes' no no' line line'} (tests : T.Twins test test') (yeses : T.Twins yes yes')
      (noes : T.Twins no no') (missing : no = .missing ↔ no' = .missing) :
      Shape (.cond test yes no line) (.cond test' yes' no' line')
  | loop {test test' body body' line line'} (tests : T.Twins test test') (bodies : T.Twins body body') :
      Shape (.loop test body line) (.loop test' body' line')
  | call {callee callee' args args' line line'} (acts : T.acts) (callees : T.Twins callee callee')
      (each : List.Forall₂ T.Twins args args') : Shape (.call callee args line) (.call callee' args' line')
  | index {target target' place place' line line'} (targets : T.Twins target target')
      (places : T.Twins place place') : Shape (.index target place line) (.index target' place' line')
  | dot {target target' key key' line line'} (targets : T.Twins target target') (keys : T.Twins key key') :
      Shape (.dot target key line) (.dot target' key' line')
  | missing : Shape .missing .missing
  | unknown {tag tag'} : Shape (.unknown tag) (.unknown tag')

theorem Shape.self {T : Terms} {t : Tree} (acts : t.bindsOrCalls = true → T.acts)
    (each : ∀ u ∈ t.evaluated, T.Twins u u)
    (bodies : ∀ params body line, t = .function params body line → T.Bodies body body) : T.Shape t t := by
  cases t with
  | program body line => exact .program (List.forall₂_same.2 each)
  | block body line => exact .block (List.forall₂_same.2 each)
  | define name op value line | assign name op value line =>
    exact .binding (acts rfl) rfl rfl Iff.rfl (each value (.head _))
  | ret value line => exact .ret (each value (.head _))
  | statement value line => exact .statement (each value (.head _))
  | ident name line => exact .ident
  | number n line => exact .number
  | string s line => exact .string
  | boolean b line => exact .boolean
  | null line => exact .null
  | array elements line => exact .array (List.forall₂_same.2 each)
  | hash pairs line =>
    exact .hash (List.forall₂_same.2 fun p member =>
      ⟨each p.1 (List.mem_append_left _ (List.mem_map_of_mem member)),
        each p.2 (List.mem_append_right _ (List.mem_map_of_mem member))⟩)
  | function params body line => exact .function (bodies params body line rfl)
  | unary op e line => exact .unary (each e (.head _))
  | binary op left right line => exact .binary (each left (.head _)) (each right (.tail _ (.head _)))
  | cond test yes no line =>
    exact .cond (each test (.head _)) (each yes (.tail _ (.head _))) (each no (.tail _ (.tail _ (.head _)))) Iff.rfl
  | loop test body line => exact .loop (each test (.head _)) (each body (.tail _ (.head _)))
  | call callee args line =>
    exact .call (acts rfl) (each callee (.head _)) (List.forall₂_same.2 fun u member => each u (.tail _ member))
  | index target place line => exact .index (each target (.head _)) (each place (.tail _ (.head _)))
  | dot target key line => exact .dot (each target (.head _)) (each key (.tail _ (.head _)))
  | missing => exact .missing
  | unknown tag => exact .unknown

inductive Held (w : T.World) : Option Object → Option Object → Prop where
  | same {o} (plain : ∀ params body home, o ≠ some (.closure params body home)) : Held w o o
  | closure {params body body' home} (bodies : T.Bodies body body') (there : T.Home w home) :
      Held w (some (.closure params body home)) (some (.closure params body' home))

inductive Made (w : T.World) (id : ScopeId) : Object → Object → Prop where
  | number (n : Int) : Made w id (.number n) (.number n)
  | string (s : String) : Made w id (.string s) (.string s)
  | array {vs} (good : ∀ v ∈ vs, T.Good w v) : Made w id (.array vs) (.array vs)
  | hash {d} (filed : T.Filed w d) : Made w id (.hash d) (.hash d)
  | closure {params body body'} (bodies : T.Bodies body body') :
      Made w id (.closure params body id) (.closure params body' id)

inductive Asks (w : T.World) : (Store → Reply) → (Store → Reply) → Prop where
  | name (id : ScopeId) (name : String) : Asks w (·.nameReply id name) (·.nameReply id name)
  | unary (op : Op) (v : Value) : Asks w (·.unaryReply op v) (·.unaryReply op v)
  | binary {depth depth'} (deep : T.Depths depth depth') (op : Op) (u v : Value) :
      Asks w (·.binaryReply depth op u v) (·.binaryReply depth' op u v)
  | index (v place : Value) : Asks w (·.indexReply v place) (·.indexReply v place)
  | dot (v key : Value) : Asks w (·.attributeReply v key) (·.attributeReply v key)
  | library (b : Builtin) {args} (good : ∀ v ∈ args, T.Good w v) :
      Asks w (·.libraryReply b args) (·.libraryReply b args)

inductive Does (w : T.World) (id : ScopeId) (t : Tree) : Act → Prop where
  | bind {name v} (rebinds : t.Rebinds name) (good : T.Good w v) : Does w id t (.bind id name v)
  | assign {name v} (good : T.Good w v) : Does w id t (.assign id name v)

theorem Held.self {T : Terms} {w : T.World} {o : Option Object}
    (closures : ∀ params body home, o = some (.closure params body home) → T.Bodies body body ∧ T.Home w home) :
    T.Held w o o := by
  by_cases plain : ∀ params body home, o ≠ some (.closure params body home)
  · exact .same plain
  · push Not at plain
    obtain ⟨params, body, home, rfl⟩ := plain
    obtain ⟨bodies, there⟩ := closures params body home rfl
    exact .closure bodies there

section
variable {T : Terms} {w : T.World} {st st' : Store} (held : ∀ v, T.Held w (st.object? v) (st'.object? v))
include held

theorem Held.tag (v : Value) : st.tag v = st'.tag v := by
  cases v with
  | ref a =>
    have here := held (.ref a)
    show ((st.object? (.ref a)).map Object.tag).getD .null = ((st'.object? (.ref a)).map Object.tag).getD .null
    generalize st.object? (.ref a) = o at here ⊢
    generalize st'.object? (.ref a) = o' at here ⊢
    cases here <;> rfl
  | _ => rfl

theorem Held.hashKey (v : Value) : st.hashKey? v = st'.hashKey? v := by
  cases v with
  | ref a =>
    have here : T.Held w st.objects[a]? st'.objects[a]? := held (.ref a)
    unfold Store.hashKey?
    dsimp only
    generalize st.objects[a]? = o at here ⊢
    generalize st'.objects[a]? = o' at here ⊢
    cases here <;> rfl
  | _ => rfl

end

def flat (Sees : Store → Store → Prop) (Twins Bodies : Tree → Tree → Prop) (Depths : Nat → Nat → Prop)
    (acts : Prop) : Terms where
  World := Unit
  Before _ _ := True
  Sees _ := Sees
  Good _ _ := True
  Filed _ _ := True
  Home _ _ := True
  Twins := Twins
  Bodies := Bodies
  Depths := Depths
  acts := acts

theorem flatHolds {Sees : Store → Store → Prop} {Twins Bodies : Tree → Tree → Prop} {Depths : Nat → Nat → Prop}
    {acts : Prop} {w : (flat Sees Twins Bodies Depths acts).World} {α : Type} (post : Post α) (a : α) :
    (flat Sees Twins Bodies Depths acts).Holds w post a := by
  cases post with
  | any | value | entries => trivial
  | values => exact fun _ _ => trivial
  | result => exact fun _ _ => trivial

theorem flatShape {Sees : Store → Store → Prop} {Depths : Nat → Nat → Prop} {t t' : Tree} (same : t = t') :
    (flat Sees Eq Eq Depths True).Shape t t' := by
  subst same
  exact .self (fun _ => trivial) (fun _ _ => rfl) fun _ _ _ _ => rfl

theorem flatHeld {Twins : Tree → Tree → Prop} {Depths : Nat → Nat → Prop} {acts : Prop}
    {w : (flat Eq Twins Eq Depths acts).World} {st st' : Store} (same : st = st') (v : Value) :
    (flat Eq Twins Eq Depths acts).Held w (st.object? v) (st'.object? v) := by
  subst same
  exact .self fun _ _ _ _ => ⟨rfl, trivial⟩

end Terms

/-! Walks -/

/-- A relation between evaluations on two machines, from a world on and up to what is known of the result, and
the rules that it is closed under. They are in the scope `id`, if they are in one, and the nearest tree around
them is `t`. -/
structure Walk (T : Terms) (m m' : Type → Type) [Monad m] [MonadExceptOf Stop m] [Machine m] [Monad m']
    [MonadExceptOf Stop m'] [Machine m'] where
  Rel {α : Type} (id : Option ScopeId) (t : Tree) (w : T.World) (x : m α) (y : m' α) (post : Post α) : Prop
  goodLater {w w' v} : T.Before w w' → T.Good w v → T.Good w' v
  filedLater {w w' d} : T.Before w w' → T.Filed w d → T.Filed w' d
  homeLater {w w' id} : T.Before w w' → T.Home w id → T.Home w' id
  goodNull {w} : T.Good w .null
  goodBoolean {w b} : T.Good w (.boolean b)
  filedNone {w} : T.Filed w .empty
  shape {t t'} : T.Twins t t' → T.Shape t t'
  called {body body'} : T.acts → T.Bodies body body' → T.Twins body body'
  held {w st st'} : T.Sees w st st' → ∀ v, T.Held w (st.object? v) (st'.object? v)
  pure {α : Type} {id t w} {a : α} {post} : T.Holds w post a → Rel id t w (pure a) (pure a) post
  bind {α β : Type} {id t w post goal} {x : m α} {y : m' α} {f : α → m β} {g : α → m' β} :
    Rel id t w x y post → (∀ w₁ a, T.Before w w₁ → T.Holds w₁ post a → Rel id t w₁ (f a) (g a) goal) →
      Rel id t w (x >>= f) (y >>= g) goal
  map {α β : Type} {id t w post goal} {x : m α} {y : m' α} {f : α → β} :
    Rel id t w x y post → (∀ w₁ a, T.Holds w₁ post a → T.Holds w₁ goal (f a)) →
      Rel id t w (f <$> x) (f <$> y) goal
  look {α : Type} {id t w post} {f : Store → m α} {g : Store → m' α} :
    (∀ st st', T.Sees w st st' → Rel id t w (f st) (g st') post) →
      Rel id t w (look >>= f) (look >>= g) post
  limit {α : Type} {id t w post} {stop : Stop} : stop.isLimit = true →
    Rel id t w (throw stop : m α) (throw stop) post
  marked {α : Type} {id t w post st st' v o} : T.Sees w st st' → T.Good w v → st.object? v = some o →
    o.tag.isMarker = true → ∀ stop : Stop, Rel id t w (throw stop : m α) (throw stop) post
  fail {α : Type} {id t w post} (fault : Fault) : Rel id t w (Eval.fail fault : m α) (Eval.fail fault) post
  leave {α : Type} {id t w post v} : T.Good w v →
    Rel (some id) t w (Eval.leave v : m α) (Eval.leave v) post
  alloc {id t w o o'} : T.Made w id o o' → Rel (some id) t w (Eval.alloc o) (Eval.alloc o') .value
  answer {id t w reply reply'} : T.Asks w reply reply' →
    Rel id t w (Eval.answer reply) (Eval.answer reply') .value
  file {id t w d key value} : T.Filed w d → T.Good w key → T.Good w value →
    Rel id t w (Eval.file d key value) (Eval.file d key value) .entries
  act {id t w act} : T.acts → T.Does w id t act → Rel (some id) t w (perform act) (perform act) .any
  printLine {id t w depth depth' v} : T.acts → T.Depths depth depth' → T.Good w v →
    Rel id t w (Eval.printLine depth v) (Eval.printLine depth' v) .any
  call {id t w home params args} {x : ScopeId → m (Option Value)} {y : ScopeId → m' (Option Value)} :
    T.acts → T.Home w home → (∀ v ∈ args, T.Good w v) →
      (∀ j w₁, Rel (some j) .missing w₁ (x j) (y j) .result) →
      Rel id t w (perform (.enter home params args) >>= fun j : ScopeId => Eval.takeReturn j (x j))
        (perform (.enter home params args) >>= fun j : ScopeId => Eval.takeReturn j (y j)) .result
  program {id t t' w body line x y} : T.Twins (.program body line) t' → Rel (some id) t w x y .result →
    Rel (some id) t w (Eval.takeReturn id x) (Eval.takeReturn id y) .result
  visit {id t u u' w x y} : T.Twins u u' → Rel (some id) u w x y .result →
    Rel (some id) t w (visit id u x) (visit id u' y) .result

namespace Walk
variable {m m' : Type → Type} [Monad m] [MonadExceptOf Stop m] [Machine m] [Monad m'] [MonadExceptOf Stop m']
  [Machine m'] {T : Terms} (W : Walk T m m') {id : Option ScopeId} {j : ScopeId} {t : Tree} {w : T.World}

def Evaluates (ev : Evaluator m) (ev' : Evaluator m') : Prop :=
  ∀ id t w u u', T.Twins u u' → W.Rel (some id) t w (ev id u) (ev' id u') .result

theorem resultNone : T.Holds w .result none := nofun

theorem resultSome {v : Value} (good : T.Good w v) : T.Holds w .result (some v) := by
  rintro _ ⟨⟩
  exact good

theorem failIf (bad : Bool) (fault : Fault) : W.Rel id t w (Eval.failIf bad fault) (Eval.failIf bad fault) .any := by
  cases bad with
  | true => exact W.fail fault
  | false => exact W.pure trivial

theorem new {o o' : Object} (made : T.Made w j o o') :
    W.Rel (some j) t w (some <$> Eval.alloc o) (some <$> Eval.alloc o') .result :=
  W.map (W.alloc made) fun _ _ => resultSome

theorem reply {r r' : Store → Reply} (asks : T.Asks w r r') :
    W.Rel id t w (some <$> Eval.answer r) (some <$> Eval.answer r') .result :=
  W.map (W.answer asks) fun _ _ => resultSome

theorem settle {v : Value} (good : T.Good w v) : W.Rel id t w (Eval.settle v) (Eval.settle v) .value := by
  refine W.look fun st st' sees => ?_
  have held := W.held sees v
  generalize found : st.object? v = o at held ⊢
  generalize st'.object? v = o' at held ⊢
  cases held with
  | closure => cases v <;> exact W.pure good
  | same =>
    split
    · exact W.marked sees good found rfl _
    · exact W.marked sees good found rfl _
    · exact W.pure good

/-! Parts -/

section
variable {ev : Evaluator m} {ev' : Evaluator m'} (h : W.Evaluates ev ev')
include h

theorem operand {u u' : Tree} (twins : T.Twins u u') :
    W.Rel (some j) t w (Eval.operand ev j u) (Eval.operand ev' j u') .value := by
  refine W.bind (h j t w u u' twins) fun w₁ r _ good => W.pure ?_
  cases r with
  | none => exact W.goodNull
  | some v => exact good v rfl

theorem operands {us us' : List Tree} (each : List.Forall₂ T.Twins us us') :
    W.Rel (some j) t w (Eval.operands ev j us) (Eval.operands ev' j us') .values := by
  induction each generalizing w with
  | nil => exact W.pure (List.forall_mem_nil _)
  | cons twins _ ih =>
    refine W.bind (W.operand h twins) fun w₁ v _ good => W.bind ih fun w₂ vs later others => W.pure ?_
    exact List.forall_mem_cons.2 ⟨W.goodLater later good, others⟩

theorem sequence {last : Option Value} (good : T.Holds w .result last) {us us' : List Tree}
    (each : List.Forall₂ T.Twins us us') :
    W.Rel (some j) t w (Eval.sequence ev j last us) (Eval.sequence ev' j last us') .result := by
  induction each generalizing w last with
  | nil => exact W.pure good
  | cons twins _ ih => exact W.bind (h j t w _ _ twins) fun w₁ r _ good₁ => ih good₁

theorem binding (acts : T.acts) {name : String} {op op' : Op} {value value' : Tree}
    (refs : op = .assignRef ↔ op' = .assignRef) (bound : op = .assignRef → t.Rebinds name)
    (values : T.Twins value value') :
    W.Rel (some j) t w (Eval.binding ev j name op value) (Eval.binding ev' j name op' value') .result := by
  refine W.bind (W.operand h values) fun w₁ v _ good => ?_
  by_cases ref : op = .assignRef
  · rw [if_pos ref, if_pos (refs.1 ref)]
    exact W.bind (W.act acts (.bind (bound ref) good)) fun _ _ _ _ => W.pure resultNone
  · rw [if_neg ref, if_neg (mt refs.2 ref)]
    refine W.bind (W.act acts (.assign good)) fun w₂ refusal _ _ => ?_
    cases refusal with
    | none => exact W.pure resultNone
    | some fault => exact W.fail fault

theorem entries {d : Dict HashKey Entry} (filed : T.Filed w d) {ps ps' : List (Tree × Tree)}
    (each : List.Forall₂ (fun p q => T.Twins p.1 q.1 ∧ T.Twins p.2 q.2) ps ps') :
    W.Rel (some j) t w (Eval.entries ev j d ps) (Eval.entries ev' j d ps') .entries := by
  induction each generalizing w d with
  | nil => exact W.pure filed
  | cons twins _ ih =>
    refine W.bind (W.operand h twins.1) fun w₁ key first goodKey => W.look fun st st' sees => ?_
    have held := W.held sees
    rw [Terms.Held.hashKey held key, Terms.Held.tag held key]
    refine W.bind (W.failIf _ _) fun w₂ _ second _ => W.bind (W.operand h twins.2) fun w₃ value third goodValue => ?_
    have filed₃ := W.filedLater third (W.filedLater second (W.filedLater first filed))
    have goodKey₃ := W.goodLater third (W.goodLater second goodKey)
    exact W.bind (W.file filed₃ goodKey₃ goodValue) fun w₄ d' _ filed' => ih filed'

end

theorem loop {test : m Value} {test' : m' Value} {body : m (Option Value)} {body' : m' (Option Value)}
    (tests : ∀ w, W.Rel id t w test test' .value) (bodies : ∀ w, W.Rel id t w body body' .result) (n : Nat)
    {last : Option Value} (good : T.Holds w .result last) :
    W.Rel id t w (Eval.loop test body n last) (Eval.loop test' body' n last) .result := by
  induction n generalizing w last with
  | zero => exact W.limit rfl
  | succ n ih =>
    refine W.bind (tests w) fun w₁ v later _ => ?_
    split
    · exact W.bind (bodies w₁) fun w₂ r _ good₂ => ih good₂
    · exact W.pure fun v same => W.goodLater later (good v same)

theorem print (acts : T.acts) {depth depth' : Nat} (deep : T.Depths depth depth') {vs : List Value}
    (good : ∀ v ∈ vs, T.Good w v) : W.Rel id t w (Eval.print depth vs) (Eval.print depth' vs) .any := by
  induction vs generalizing w with
  | nil => exact W.pure trivial
  | cons v vs ih =>
    obtain ⟨here, rest⟩ := List.forall_mem_cons.1 good
    exact W.bind (W.printLine acts deep here) fun w₁ _ later _ => ih fun u member => W.goodLater later (rest u member)

/-! Calls -/

section
variable {ev : Evaluator m} {ev' : Evaluator m'} (h : W.Evaluates ev ev') (acts : T.acts)
include h acts

theorem enter {params : List String} {body body' : Tree} {home : ScopeId} {args : List Value}
    (bodies : T.Bodies body body') (there : T.Home w home) (good : ∀ v ∈ args, T.Good w v) :
    W.Rel id t w (Eval.enter ev params body home args) (Eval.enter ev' params body' home args) .result := by
  refine W.bind (W.failIf _ _) fun w₁ _ later _ => ?_
  exact W.call acts (W.homeLater later there) (fun v member => W.goodLater later (good v member))
    fun k w₂ => h k .missing w₂ body body' (W.called acts bodies)

theorem untilFalse {body body' : Tree} {home : ScopeId} (bodies : T.Bodies body body') (there : T.Home w home)
    (n : Nat) :
    W.Rel id t w (Eval.untilFalse (Eval.enter ev [] body home []) n)
      (Eval.untilFalse (Eval.enter ev' [] body' home []) n) .result := by
  induction n generalizing w with
  | zero => exact W.limit rfl
  | succ n ih =>
    refine W.bind (W.enter h acts bodies there (List.forall_mem_nil _)) fun w₁ r later good => ?_
    have again := ih (W.homeLater later there)
    split
    · exact W.pure (resultSome W.goodNull)
    · next a =>
      refine W.look fun st st' sees => ?_
      have held := W.held sees (.ref a)
      generalize found : st.object? (.ref a) = o at held ⊢
      generalize st'.object? (.ref a) = o' at held ⊢
      cases held with
      | closure => exact again
      | same =>
        split
        · exact W.marked sees (good _ rfl) found rfl _
        · exact again
    · exact again

theorem doWhile (rounds : Nat) (fn : Value) :
    W.Rel id t w (Eval.doWhile ev rounds fn) (Eval.doWhile ev' rounds fn) .result := by
  refine W.look fun st st' sees => ?_
  have held := W.held sees
  rw [Terms.Held.tag held fn]
  have here := held fn
  generalize st.object? fn = o at here ⊢
  generalize st'.object? fn = o' at here ⊢
  cases here with
  | @closure params body body' home bodies there =>
    cases params with
    | nil => exact W.untilFalse h acts bodies there rounds
    | cons => exact W.fail _
  | same plain =>
    split
    · exact absurd rfl (plain _ _ _)
    · exact absurd rfl (plain _ _ _)
    · exact W.fail _

theorem callBuiltin (rounds : Nat) {depth depth' : Nat} (deep : T.Depths depth depth') (b : Builtin)
    {args : List Value} (good : ∀ v ∈ args, T.Good w v) :
    W.Rel id t w (Eval.callBuiltin ev rounds depth b args) (Eval.callBuiltin ev' rounds depth' b args) .result := by
  unfold Eval.callBuiltin
  split
  · exact W.bind (W.print acts deep good) fun _ _ _ _ => W.pure (resultSome W.goodNull)
  · exact W.doWhile h acts rounds _
  · exact W.reply (.library _ good)

theorem apply (rounds : Nat) {depth depth' : Nat} (deep : T.Depths depth depth') (fn : Value)
    {args : List Value} (good : ∀ v ∈ args, T.Good w v) :
    W.Rel id t w (Eval.apply ev rounds depth fn args) (Eval.apply ev' rounds depth' fn args) .result := by
  unfold Eval.apply
  split
  · exact W.callBuiltin h acts rounds deep _ good
  · refine W.look fun st st' sees => ?_
    have held := W.held sees
    rw [Terms.Held.tag held fn]
    have here := held fn
    generalize st.object? fn = o at here ⊢
    generalize st'.object? fn = o' at here ⊢
    cases here with
    | closure bodies there => exact W.enter h acts bodies there good
    | same plain =>
      split
      · exact absurd rfl (plain _ _ _)
      · exact W.fail _

end

/-! Trees -/

theorem stepBinding {m : Type → Type} [Monad m] [MonadExceptOf Stop m] [Machine m] (ev : Evaluator m)
    (rounds depth : Nat) (id : ScopeId) {t value : Tree} {name : String} {op : Op}
    (binds : t.binds? = some (name, op, value)) :
    Eval.step ev rounds depth id t = Eval.binding ev id name op value ∧ (op = .assignRef → t.Rebinds name) := by
  cases t with
  | define | assign =>
    cases binds
    exact ⟨rfl, fun ref => ⟨rfl, ref⟩⟩
  | _ => cases binds

section
variable {ev : Evaluator m} {ev' : Evaluator m'} (h : W.Evaluates ev ev') (rounds : Nat) {depth depth' : Nat}
  (deep : T.Depths depth depth')
include h deep

theorem step {t t' : Tree} (twins : T.Twins t t') :
    W.Rel (some j) t w (Eval.step ev rounds depth j t) (Eval.step ev' rounds depth' j t') .result := by
  cases W.shape twins with
  | program each => exact W.program twins (W.sequence h resultNone each)
  | block each =>
    refine W.bind (W.sequence h resultNone each) fun w₁ r _ good => W.pure ?_
    cases r with
    | none => exact resultSome W.goodNull
    | some v => exact good
  | binding acts left right refs values =>
    obtain ⟨same, bound⟩ := stepBinding ev rounds depth j left
    rw [same, (stepBinding ev' rounds depth' j right).1]
    exact W.binding h acts refs bound values
  | ret values => exact W.bind (W.operand h values) fun w₁ v _ good => W.leave good
  | statement values => exact h j _ w _ _ values
  | ident => exact W.reply (.name j _)
  | number => exact W.new (.number _)
  | string => exact W.new (.string _)
  | boolean => exact W.pure (resultSome W.goodBoolean)
  | null => exact W.pure (resultSome W.goodNull)
  | array each => exact W.bind (W.operands h each) fun w₁ vs _ good => W.new (.array good)
  | hash each => exact W.bind (W.entries h W.filedNone each) fun w₁ d _ filed => W.new (.hash filed)
  | function bodies => exact W.new (.closure bodies)
  | unary operands => exact W.bind (W.operand h operands) fun w₁ v _ _ => W.reply (.unary _ v)
  | binary lefts rights =>
    exact W.bind (W.operand h rights) fun w₁ u _ _ => W.bind (W.operand h lefts) fun w₂ v _ _ =>
      W.reply (.binary deep _ v u)
  | cond tests yeses noes missing =>
    refine W.bind (W.operand h tests) fun w₁ v _ _ => ?_
    split
    · exact h j _ w₁ _ _ yeses
    · split
      · rw [missing.1 rfl]
        exact W.pure (resultSome W.goodNull)
      · next given =>
        split
        · exact absurd (missing.2 rfl) given
        · exact h j _ w₁ _ _ noes
  | loop tests bodies =>
    exact W.loop (fun w => W.operand h tests) (fun w => h j _ w _ _ bodies) rounds (resultSome W.goodNull)
  | call acts callees each =>
    exact W.bind (W.operand h callees) fun w₁ fn _ _ => W.bind (W.operands h each) fun w₂ vs _ good =>
      W.apply h acts rounds deep fn good
  | index targets places =>
    exact W.bind (W.operand h targets) fun w₁ v _ _ => W.bind (W.operand h places) fun w₂ i _ _ =>
      W.reply (.index v i)
  | dot targets keys =>
    refine W.bind (W.operand h targets) fun w₁ v _ _ => W.look fun st st' sees => ?_
    rw [Terms.Held.tag (W.held sees) v]
    exact W.bind (W.failIf _ _) fun w₂ _ _ _ => W.bind (W.operand h keys) fun w₃ k _ _ =>
      W.reply (.dot v k)
  | missing => exact W.pure resultNone
  | unknown => exact W.pure resultNone

theorem node : W.Evaluates (Eval.node ev rounds depth) (Eval.node ev' rounds depth') := by
  intro id t w u u' twins
  refine W.visit twins (W.bind (W.step h rounds deep twins) fun w₁ r _ good => ?_)
  cases r with
  | none => exact W.pure resultNone
  | some v => exact W.map (W.settle (good v rfl)) fun _ _ => resultSome

end

theorem within (deep : ∀ n, T.Depths n n) (rounds depth : Nat) :
    W.Evaluates (Eval.within rounds depth) (Eval.within rounds depth) := by
  induction depth with
  | zero => exact fun id t w u u' _ => W.limit rfl
  | succ depth ih => exact W.node ih rounds (deep depth)

end Walk
end Baby
