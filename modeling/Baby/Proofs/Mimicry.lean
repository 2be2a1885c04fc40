import Baby.Proofs.Spelling
import Baby.Proofs.Walk

/-! Two evaluations side by side. Their trees have one form and their stores hold the same objects at
the same addresses, up to the form of function bodies; then they do the same acts, step by step, and
end alike. -/
namespace Baby

/- A form of trees, with what is told of a line of output, that leaves out nothing evaluation needs. -/
structure Forgets {β : Type} (f : Tree → Tree) (g : Printed → β) : Prop where
  plain : ∀ t u, f t = f u → t.plain = u.plain
  parts : ∀ t u, f t = f u → t.parts.map f = u.parts.map f
  line : ∀ (st st' : Store) (n : Nat) (v : Value), st.through f = st'.through f →
    (st.inspectWithin n [] v).map (g ⟨v, ·⟩) = (st'.inspectWithin n [] v).map (g ⟨v, ·⟩)

theorem plainForgets : Forgets Tree.plain Printed.value where
  plain _ _ same := same
  parts t u same := by rw [← Tree.partsPlain, same, Tree.partsPlain]
  line st st' n v same := by
    have found := congrArg (fun st : Store => (st.inspectWithin n [] v).isSome) same
    simp only [Store.throughPrintable Tree.heightPlain] at found
    cases left : st.inspectWithin n [] v <;> cases right : st'.inspectWithin n [] v <;> simp_all

theorem unlinedForgets : Forgets Tree.unlined id where
  plain t u same := by rw [← Tree.plainUnlined, same, Tree.plainUnlined]
  parts t u same := by rw [← Tree.partsUnlined, same, Tree.partsUnlined]
  line st st' n v same := by
    have text := congrArg (Store.inspectWithin · n [] v) same
    simp only [Store.throughInspect Tree.heightUnlined Tree.renderUnlined] at text
    rw [text]

structure Abreast {β : Type} (f : Tree → Tree) (g : Printed → β) (old old' : Array Printed)
    (st st' : Store) : Prop where
  things : st.through f = st'.through f
  output : ∃ more more', st.printed = old ++ more ∧ st'.printed = old' ++ more' ∧
    more.map g = more'.map g

def Mimics {α β : Type} (f : Tree → Tree) (g : Printed → β) (x y : Eval α) : Prop :=
  ∀ old old' st st', Abreast f g old old' st st' →
    (x.run.run st).1 = (y.run.run st').1 ∧ Abreast f g old old' (x.run.run st).2 (y.run.run st').2

section
variable {f : Tree → Tree} {st st' : Store}

theorem closureThrough {o o' : Object} (same : o.through f = o'.through f) :
    o = o' ∨ ∃ params body body' home, f body = f body' ∧
      o = .closure params body home ∧ o' = .closure params body' home := by
  cases o with
  | closure params body home =>
    cases o' with
    | closure params' body' home' =>
      simp only [Object.through, Object.closure.injEq] at same
      obtain ⟨rfl, forms, rfl⟩ := same
      exact .inr ⟨params, body, body', home, forms, rfl, rfl⟩
    | _ => cases same
  | _ => cases o' <;> first | exact .inl same | cases same

theorem objectThrough (same : st.through f = st'.through f) (v : Value) :
    st.object? v = st'.object? v ∨ ∃ params body body' home, f body = f body' ∧
      st.object? v = some (.closure params body home) ∧
      st'.object? v = some (.closure params body' home) := by
  have here := congrArg (Store.object? · v) same
  simp only [Store.throughObject] at here
  cases left : st.object? v with
  | none =>
    rw [left] at here
    exact .inl (Option.map_eq_none_iff.1 here.symm).symm
  | some o =>
    rw [left] at here
    obtain ⟨o', right, forms⟩ := Option.map_eq_some_iff.1 here.symm
    rw [right]
    rcases closureThrough forms with rfl | ⟨params, body, body', home, forms', rfl, rfl⟩
    · exact .inl rfl
    · exact .inr ⟨params, body', body, home, forms'.symm, rfl, rfl⟩

theorem readThrough {γ : Type} (read : Store → γ) (blind : ∀ st : Store, read (st.through f) = read st)
    (same : st.through f = st'.through f) : read st = read st' := by
  rw [← blind st, same, blind]

end

namespace Mimics
variable {α β γ : Type} {f : Tree → Tree} {g : Printed → β}

/-! Steps -/

theorem runBind (x : Eval α) (k : α → Eval γ) (st : Store) :
    (x >>= k).run.run st =
      match x.run.run st with
      | (.ok a, st₁) => (k a).run.run st₁
      | (.error stop, st₁) => (.error stop, st₁) := by
  show (x.run >>= ExceptT.bindCont k).run st = _
  simp only [StateT.run_bind]
  rcases x.run.run st with ⟨_ | a, st₁⟩ <;> rfl

theorem runCatch (x : Eval α) (k : Stop → Eval α) (st : Store) :
    (tryCatch x k).run.run st =
      match x.run.run st with
      | (.ok a, st₁) => (.ok a, st₁)
      | (.error stop, st₁) => (k stop).run.run st₁ := by
  show ExceptT.tryCatch x k st = _
  unfold ExceptT.tryCatch
  show (x.run >>= _).run st = _
  simp only [StateT.run_bind]
  rcases x.run.run st with ⟨_ | a, st₁⟩ <;> rfl

theorem pure (a : α) : Mimics f g (pure a) (pure a) := fun _ _ _ _ h => ⟨rfl, h⟩

theorem throw (stop : Stop) : Mimics f g (throw stop : Eval α) (throw stop) :=
  fun _ _ _ _ h => ⟨rfl, h⟩

theorem bind {x y : Eval α} {k l : α → Eval γ} (first : Mimics f g x y)
    (rest : ∀ a, Mimics f g (k a) (l a)) : Mimics f g (x >>= k) (y >>= l) := by
  intro old old' st st' h
  obtain ⟨same, h₁⟩ := first old old' st st' h
  rw [runBind, runBind]
  rcases left : x.run.run st with ⟨r, st₁⟩
  rcases right : y.run.run st' with ⟨r', st₁'⟩
  rw [left, right] at same h₁
  cases same
  cases r with
  | error stop => exact ⟨rfl, h₁⟩
  | ok a => exact rest a old old' st₁ st₁' h₁

theorem map {x y : Eval α} (h : Mimics f g x y) (k : α → γ) : Mimics f g (k <$> x) (k <$> y) := by
  rw [map_eq_pure_bind, map_eq_pure_bind]
  exact h.bind fun a => .pure (k a)

theorem catches {x y : Eval α} {k l : Stop → Eval α} (first : Mimics f g x y)
    (rest : ∀ stop, Mimics f g (k stop) (l stop)) : Mimics f g (tryCatch x k) (tryCatch y l) := by
  intro old old' st st' h
  obtain ⟨same, h₁⟩ := first old old' st st' h
  rw [runCatch, runCatch]
  rcases left : x.run.run st with ⟨r, st₁⟩
  rcases right : y.run.run st' with ⟨r', st₁'⟩
  rw [left, right] at same h₁
  cases same
  cases r with
  | error stop => exact rest stop old old' st₁ st₁' h₁
  | ok a => exact ⟨rfl, h₁⟩

theorem look {k l : Store → Eval α}
    (rest : ∀ st st', st.through f = st'.through f → Mimics f g (k st) (l st')) :
    Mimics f g (Machine.look >>= k) (Machine.look >>= l) :=
  fun old old' st st' h => rest st st' h.things old old' st st' h

theorem allocate {o o' : Object} (same : o.through f = o'.through f) :
    Mimics f g (Machine.perform (.alloc o)) (Machine.perform (.alloc o')) := by
  intro old old' st st' h
  have size : st.objects.size = st'.objects.size :=
    readThrough (·.objects.size) (fun _ => Store.throughSize) h.things
  refine ⟨congrArg Except.ok size, ?_, h.output⟩
  have left := congrArg Prod.snd (Store.throughAlloc (f := f) st o)
  have right := congrArg Prod.snd (Store.throughAlloc (f := f) st' o')
  exact (left.symm.trans (by rw [h.things, same])).trans right

theorem act (act : Act) (changes : ∀ o, act ≠ .alloc o) (quiet : ∀ v, act ≠ .print v) :
    Mimics f g (Machine.perform act) (Machine.perform act) := by
  intro old old' st st' h
  have both := congrArg act.run h.things
  rw [Act.runThrough act changes quiet, Act.runThrough act changes quiet] at both
  obtain ⟨more, more', left, right, alike⟩ := h.output
  obtain ⟨results, stores⟩ := Prod.mk.inj both
  exact ⟨congrArg Except.ok results, stores, more, more',
    (act.runPrinted quiet st).trans left, (act.runPrinted quiet st').trans right, alike⟩

/-! Evaluation -/

theorem alloc {o o' : Object} (same : o.through f = o'.through f) :
    Mimics f g (Eval.alloc o) (Eval.alloc o') :=
  (allocate same).bind fun _ => .pure _

theorem fail (fault : Fault) : Mimics f g (Eval.fail fault : Eval α) (Eval.fail fault) :=
  (allocate rfl).bind fun _ => .throw _

theorem leave (v : Value) : Mimics f g (Eval.leave v : Eval α) (Eval.leave v) :=
  (allocate rfl).bind fun _ => .throw _

theorem answer {reply : Store → Reply} (blind : ∀ st : Store, reply (st.through f) = reply st) :
    Mimics f g (Eval.answer reply) (Eval.answer reply) := by
  refine look fun st st' same => ?_
  rw [readThrough reply blind same]
  rcases reply st' with fault | ⟨v⟩ | ⟨o⟩ | _
  · exact fail fault
  · exact pure v
  · exact alloc rfl
  · exact throw _

theorem file (d : Dict HashKey Entry) (key value : Value) :
    Mimics f g (Eval.file d key value) (Eval.file d key value) := by
  refine (act (.copy key) (by simp) (by simp)).bind fun key => look fun st st' same => ?_
  rw [readThrough (·.hashKey? key) (fun _ => Store.throughHashKey key) same,
    readThrough (·.tag key) (fun _ => Store.throughTag key) same]
  cases st'.hashKey? key with
  | none => exact fail _
  | some k => exact pure _

theorem printed {v : Value} {text text' : String} (alike : g ⟨v, text⟩ = g ⟨v, text'⟩) :
    Mimics f g (Machine.perform (.print ⟨v, text⟩)) (Machine.perform (.print ⟨v, text'⟩)) := by
  intro old old' st st' h
  obtain ⟨more, more', left, right, told⟩ := h.output
  refine ⟨rfl, h.things, more.push ⟨v, text⟩, more'.push ⟨v, text'⟩, ?_, ?_, ?_⟩
  · show st.printed.push _ = _
    rw [left, Array.append_push]
  · show st'.printed.push _ = _
    rw [right, Array.append_push]
  · rw [Array.map_push, Array.map_push, told, alike]

theorem printLine (forgets : Forgets f g) (depth : Nat) (v : Value) :
    Mimics f g (Eval.printLine depth v) (Eval.printLine depth v) := by
  refine look fun st st' same => ?_
  have line := forgets.line st st' depth v same
  cases left : st.inspectWithin depth [] v with
  | none =>
    rw [left] at line
    rw [Option.map_eq_none_iff.1 line.symm]
    exact throw _
  | some text =>
    rw [left] at line
    obtain ⟨text', right, alike⟩ := Option.map_eq_some_iff.1 line.symm
    rw [right]
    exact printed alike.symm

theorem takeReturn {x y : Eval (Option Value)} (h : Mimics f g x y) (id : ScopeId) :
    Mimics f g (Eval.takeReturn id x) (Eval.takeReturn id y) := by
  refine h.catches fun stop => ?_
  cases stop with
  | returned _ v => exact pure (some v)
  | _ => exact throw _

theorem eachTwins {ts us : List Tree} (same : ts.map f = us.map f) :
    List.Forall₂ (fun t u => f t = f u) ts us := by
  rw [← List.forall₂_eq_eq_eq, List.forall₂_map_left_iff, List.forall₂_map_right_iff] at same
  exact same

theorem pairTwins {ps qs : List (Tree × Tree)} (keys : (ps.map Prod.fst).map f = (qs.map Prod.fst).map f)
    (values : (ps.map Prod.snd).map f = (qs.map Prod.snd).map f) :
    List.Forall₂ (fun p q => f p.1 = f q.1 ∧ f p.2 = f q.2) ps qs := by
  induction ps generalizing qs with
  | nil =>
    cases qs with
    | nil => exact .nil
    | cons q qs => cases keys
  | cons p ps ih =>
    cases qs with
    | nil => cases keys
    | cons q qs =>
      obtain ⟨key, keys⟩ := List.cons.inj keys
      obtain ⟨value, values⟩ := List.cons.inj values
      exact .cons ⟨key, value⟩ (ih keys values)

end Mimics

/-! Trees -/

def Terms.formed (f : Tree → Tree) : Terms :=
  .flat (fun st st' => st.through f = st'.through f) (fun t u => f t = f u) (fun t u => f t = f u) Eq True

theorem formedShape {β : Type} {f : Tree → Tree} {g : Printed → β} (forgets : Forgets f g) {t u : Tree}
    (same : f t = f u) : (Terms.formed f).Shape t u := by
  have shape := forgets.plain t u same
  have parts := forgets.parts t u same
  -- Trees of different kinds have different plain forms, a definition and an assignment apart.
  cases t <;> cases u <;> try (simp only [Tree.plain, reduceCtorEq] at shape; done)
  case program.program => exact .program (Mimics.eachTwins parts)
  case block.block => exact .block (Mimics.eachTwins parts)
  case define.define op _ _ _ op' _ _ | define.assign op _ _ _ op' _ _ | assign.define op _ _ _ op' _ _
      | assign.assign op _ _ _ op' _ _ =>
    simp only [Tree.plain, Tree.assign.injEq] at shape
    obtain ⟨rfl, ops, -, -⟩ := shape
    have refs : op = .assignRef ↔ op' = .assignRef := by
      cases op <;> cases op' <;> simp_all [Op.plain]
    exact .binding trivial rfl rfl refs (List.cons.inj parts).1
  case ret.ret => exact .ret (List.cons.inj parts).1
  case statement.statement => exact .statement (List.cons.inj parts).1
  case ident.ident =>
    cases shape
    exact .ident
  case number.number =>
    cases shape
    exact .number
  case string.string =>
    cases shape
    exact .string
  case boolean.boolean =>
    cases shape
    exact .boolean
  case null.null => exact .null
  case array.array => exact .array (Mimics.eachTwins parts)
  case hash.hash ps _ qs _ =>
    have count : ps.length = qs.length := by
      have count := congrArg List.length (Tree.hash.inj shape).1
      simpa only [Tree.plainPairsMap, List.length_map] using count
    simp only [Tree.parts, List.map_append] at parts
    obtain ⟨keys, values⟩ := List.append_inj parts (by simp [count])
    exact .hash (Mimics.pairTwins keys values)
  case function.function =>
    obtain ⟨rfl, -, -⟩ := Tree.function.inj shape
    exact .function (List.cons.inj parts).1
  case unary.unary =>
    obtain ⟨rfl, -, -⟩ := Tree.unary.inj shape
    exact .unary (List.cons.inj parts).1
  case binary.binary =>
    obtain ⟨rfl, -, -, -⟩ := Tree.binary.inj shape
    obtain ⟨left, parts⟩ := List.cons.inj parts
    exact .binary left (List.cons.inj parts).1
  case cond.cond no _ _ _ no' _ =>
    obtain ⟨test, parts⟩ := List.cons.inj parts
    obtain ⟨yes, parts⟩ := List.cons.inj parts
    have other := (Tree.cond.inj shape).2.2.1
    have missing : no = .missing ↔ no' = .missing := by
      rw [← Tree.plainMissing, other, Tree.plainMissing]
    exact .cond test yes (List.cons.inj parts).1 missing
  case loop.loop =>
    obtain ⟨test, parts⟩ := List.cons.inj parts
    exact .loop test (List.cons.inj parts).1
  case call.call =>
    obtain ⟨callee, args⟩ := List.cons.inj parts
    exact .call trivial callee (Mimics.eachTwins args)
  case index.index =>
    obtain ⟨target, parts⟩ := List.cons.inj parts
    exact .index target (List.cons.inj parts).1
  case dot.dot =>
    obtain ⟨target, parts⟩ := List.cons.inj parts
    exact .dot target (List.cons.inj parts).1
  case missing.missing => exact .missing
  case unknown.unknown => exact .unknown

def mimicking {β : Type} {f : Tree → Tree} {g : Printed → β} (forgets : Forgets f g) :
    Walk (.formed f) Eval Eval where
  Rel _ _ _ x y _ := Mimics f g x y
  goodLater _ _ := trivial
  filedLater _ _ := trivial
  homeLater _ _ := trivial
  goodNull := trivial
  goodBoolean := trivial
  filedNone := trivial
  shape same := formedShape forgets same
  called _ same := same
  held := by
    intro _ st st' same v
    rcases objectThrough same v with here | ⟨_, _, _, _, forms, left, right⟩
    · rw [here]
      exact .self fun _ _ _ _ => ⟨rfl, trivial⟩
    · rw [left, right]
      exact .closure forms trivial
  pure _ := .pure _
  bind first rest := first.bind fun a => rest () a trivial (Terms.flatHolds _ a)
  map h _ := h.map _
  look rest := .look rest
  limit _ := .throw _
  marked _ _ _ _ stop := .throw stop
  fail fault := .fail fault
  leave _ := .leave _
  alloc := by
    rintro id _ _ _ _ (_ | _ | _ | _ | same)
    case closure params body body' =>
      exact .alloc (congrArg (Object.closure params · id) same)
    all_goals exact .alloc rfl
  answer := by
    rintro _ _ _ _ _ asks
    cases asks with
    | name id name => exact .answer fun _ => Store.throughName id name
    | unary op v => exact .answer fun _ => Store.throughUnary op v
    | binary deep op u v =>
      cases deep
      exact .answer fun _ => Store.throughBinary _ op u v
    | index v place => exact .answer fun _ => Store.throughIndex v place
    | dot v key => exact .answer fun _ => Store.throughAttribute v key
    | library b => exact .answer fun _ => Store.throughLibrary b _
  file _ _ _ := .file _ _ _
  act := by rintro id _ _ _ _ (_ | _) <;> exact .act _ (by simp) (by simp)
  printLine := by
    rintro _ _ _ depth _ v _ rfl _
    exact .printLine forgets depth v
  call _ _ _ h := (Mimics.act _ (by simp) (by simp)).bind fun j => (h j ()).takeReturn j
  program _ h := h.takeReturn _
  visit _ h := h

theorem Mimics.within {β : Type} {f : Tree → Tree} {g : Printed → β} (forgets : Forgets f g)
    (rounds depth : Nat) (id : ScopeId) (t u : Tree) (same : f t = f u) :
    Mimics f g (Eval.within rounds depth id t) (Eval.within rounds depth id u) :=
  (mimicking forgets).within (fun _ => rfl) rounds depth id .missing () t u same

/-! Sessions -/

namespace Session

structure Respelled (s s' : Session) : Prop where
  store : s.store.through Tree.plain = s'.store.through Tree.plain
  root : s.root = s'.root
  limits : s.limits = s'.limits

end Session

section
variable {β : Type} {f : Tree → Tree} {g : Printed → β}

theorem Mimics.finish {x y : Eval (Option Value)} (h : Mimics f g x y) {st st' : Store}
    (same : st.through f = st'.through f) :
    (x.finish st).1 = (y.finish st').1 ∧
      Abreast f g st.printed st'.printed (x.finish st).2 (y.finish st').2 := by
  have start : Abreast f g st.printed st'.printed st st' := ⟨same, #[], #[], by simp, by simp, rfl⟩
  obtain ⟨results, stores⟩ := h _ _ st st' start
  unfold Eval.finish
  rcases left : x.run.run st with ⟨r, st₁⟩
  rcases right : y.run.run st' with ⟨r', st₁'⟩
  rw [left, right] at results stores
  cases results
  cases r <;> exact ⟨rfl, stores⟩

theorem errorThrough {st st' : Store} (same : st.through f = st'.through f) (v : Value) (fault : Fault) :
    st.object? v = some (.error fault) ↔ st'.object? v = some (.error fault) := by
  rcases objectThrough same v with here | ⟨_, _, _, _, _, left, right⟩
  · rw [here]
  · simp [left, right]

end

/-- Evaluation ignores whether a name is defined or assigned, which sign for a copy is used, and the
lines: two spellings of one program end alike, in sessions that hold the same, and print the same. -/
theorem spellingIgnored {s s' : Session} {t t' : Tree} (sessions : s.Respelled s')
    (trees : t.plain = t'.plain) :
    (s.execute t).1 = (s'.execute t').1 ∧ (s.execute t).2.Respelled (s'.execute t').2 ∧
    (∀ v fault, (s.execute t).2.store.object? v = some (.error fault) ↔
      (s'.execute t').2.store.object? v = some (.error fault)) ∧
    ∃ lines lines', (s.execute t).2.store.printed = s.store.printed ++ lines ∧
      (s'.execute t').2.store.printed = s'.store.printed ++ lines' ∧
      lines.map Printed.value = lines'.map Printed.value := by
  obtain ⟨st, root, limits⟩ := s
  obtain ⟨st', root', limits'⟩ := s'
  obtain ⟨same, rfl, rfl⟩ := sessions
  have mimics := Mimics.within plainForgets limits.rounds limits.depth root t t' trees
  obtain ⟨endings, stores⟩ := mimics.finish same
  exact ⟨endings, ⟨stores.things, rfl, rfl⟩, errorThrough stores.things, stores.output⟩

def definedTwice : Session :=
  ⟨⟨#[.closure ["x"] (.block [.define "y" .assign (.ident "x" 1) 1,
      .statement (.binary .add (.ident "y" 1) (.ident "y" 1) 1) 1] 1) 0],
    #[⟨.put .empty "twice" (.ref 0), none⟩], #[]⟩, 0, .standard⟩

def assignedTwice : Session :=
  ⟨⟨#[.closure ["x"] (.block [.assign "y" .assignVal (.ident "x" 2) 2,
      .statement (.binary .add (.ident "y" 3) (.ident "y" 3) 3) 3] 1) 0],
    #[⟨.put .empty "twice" (.ref 0), none⟩], #[]⟩, 0, .standard⟩

def definedCall : Tree := .program [.define "z" .assign (.call (.ident "twice" 1) [.number 2 1] 1) 1] 1

def assignedCall : Tree := .program [.assign "z" .assignVal (.call (.ident "twice" 5) [.number 2 5] 5) 5] 5

theorem spellingIgnoredTwice :
    (definedTwice.execute definedCall).1 = (assignedTwice.execute assignedCall).1 ∧
    (definedTwice.execute definedCall).2.Respelled (assignedTwice.execute assignedCall).2 := by
  have sessions : definedTwice.Respelled assignedTwice := by
    refine ⟨?_, rfl, rfl⟩
    simp [definedTwice, assignedTwice, Store.through, Object.through, Op.plain]
  have trees : definedCall.plain = assignedCall.plain := by
    simp [definedCall, assignedCall, Op.plain]
  obtain ⟨endings, after, _⟩ := spellingIgnored sessions trees
  exact ⟨endings, after⟩

end Baby
