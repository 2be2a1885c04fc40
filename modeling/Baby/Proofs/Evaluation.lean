import Baby.Proofs.Replies
import Baby.Proofs.Trace

/-! Evaluation leaves traces: what it does, from a sound world, is a trace, and what it gives is data. -/
namespace Baby
open Machine (look perform visit activate)

structure World.Live (P : Tree → Prop) (id : Option ScopeId) (w : World) : Prop where
  sound : w.Sound P
  there : ∀ j, id = some j → j < w.store.scopes.size

def World.Before (w w' : World) : Prop := w.Later (fun _ => True) (fun _ _ => True) w'

def World.Fine (w : World) (r : Option Value) : Prop := ∀ v, r = some v → w.Ordinary v

theorem World.Later.before {own : ScopeId → Prop} {rebound : ScopeId → String → Prop} {w w' : World}
    (h : w.Later own rebound w') : w.Before w' :=
  h.weaken (fun _ _ _ => trivial) fun _ _ _ _ _ => trivial

theorem World.Live.later {P : Tree → Prop} {id : Option ScopeId} {own : ScopeId → Prop}
    {rebound : ScopeId → String → Prop} {w w' : World} (h : w.Live P id) (k : w.Later own rebound w')
    (sound : w'.Sound P) : w'.Live P id :=
  ⟨sound, fun j same => k.scopes (h.there j same)⟩

theorem World.enteredLive {P : Tree → Prop} {id : Option ScopeId} {t : Tree} {home : ScopeId}
    {params : List String} {args : List Value} {w : World} (sound : w.Sound P)
    (fine : w.Admissible P id t (.enter home params args)) :
    (w.after (.enter home params args)).Live P (some w.store.scopes.size) := by
  refine ⟨World.actSound sound fine, fun j same => ?_⟩
  rw [World.afterStore, World.enterSize, ← Option.some.inj same]
  exact Nat.lt_succ_self _

def Follows {α : Type} (P : Tree → Prop) (id : Option ScopeId) (t : Tree) (w : World) (x : Traced α)
    (post : α → World → Prop) : Prop :=
  ∃ w', w'.store = (x w.store).store ∧
    Trace P id t w (x w.store).events w' (stopOf (x w.store).result) ∧
    ∀ a, (x w.store).result = .ok a → post a w'

namespace Follows
variable {P : Tree → Prop} {id : Option ScopeId} {t : Tree} {w : World} {α β : Type} {x : Traced α}
  {f : α → Traced β} {post : α → World → Prop} {goal : β → World → Prop}

theorem pure {a : α} (h : post a w) : Follows P id t w (Pure.pure a) post := by
  refine ⟨w, rfl, .none, ?_⟩
  rintro _ ⟨⟩
  exact h

theorem weaken {post' : α → World → Prop} (h : Follows P id t w x post)
    (imp : ∀ a w', post a w' → post' a w') : Follows P id t w x post' := by
  obtain ⟨w', same, trace, fine⟩ := h
  exact ⟨w', same, trace, fun a result => imp a w' (fine a result)⟩

theorem bind (live : w.Live P id) (first : Follows P id t w x post)
    (rest : ∀ a w₁, w₁.Live P id → w.Before w₁ → post a w₁ → Follows P id t w₁ (f a) goal) :
    Follows P id t w (x >>= f) goal := by
  obtain ⟨w₁, same, trace, fine⟩ := first
  show Follows P id t w (Traced.bind x f) goal
  unfold Follows Traced.bind
  rcases outcome : x w.store with ⟨l, stop | a, st⟩
  · rw [outcome] at same trace
    refine ⟨w₁, same, trace, ?_⟩
    rintro _ ⟨⟩
  · rw [outcome] at same trace fine
    have later := trace.later live.sound
    have live₁ : w₁.Live P id := live.later later (trace.sound live.sound)
    obtain ⟨w₂, same₂, trace₂, fine₂⟩ := rest a w₁ live₁ later.before (fine a rfl)
    have start : st = w₁.store := same.symm
    subst start
    exact ⟨w₂, same₂, trace.seq trace₂, fine₂⟩

theorem map {g : α → β} (live : w.Live P id) (h : Follows P id t w x fun a w' => goal (g a) w') :
    Follows P id t w (g <$> x) goal :=
  h.bind live fun _ _ _ _ fine => .pure fine

theorem look {f : Store → Traced β} (h : Follows P id t w (f w.store) goal) :
    Follows P id t w (Machine.look >>= f) goal := by
  obtain ⟨w', same, trace, fine⟩ := h
  exact ⟨w', same, trace, fine⟩

theorem thenAct {act : Act} {g : act.Result → Traced β} (live : w.Live P id)
    (fine : w.Admissible P id t act) (plain : act.IsPlain)
    (rest : (w.after act).Live P id → w.Before (w.after act) →
      Follows P id t (w.after act) (g (act.run w.store).1) goal) :
    Follows P id t w (perform act >>= g) goal := by
  have later := World.actLater live.sound fine
  have live₁ : (w.after act).Live P id := live.later later (World.actSound live.sound fine)
  obtain ⟨w', same, trace, post⟩ := rest live₁ later.before
  exact ⟨w', same, (Trace.act fine plain).seq trace, post⟩

theorem performs {act : Act} {post : act.Result → World → Prop} (fine : w.Admissible P id t act)
    (plain : act.IsPlain) (given : ∀ w', post (act.run w.store).1 w') :
    Follows P id t w (perform act) post := by
  refine ⟨w.after act, rfl, .act fine plain, ?_⟩
  rintro _ ⟨⟩
  exact given _

theorem cut {stop : Stop} (limit : stop.isLimit = true) : Follows P id t w (throw stop) post := by
  refine ⟨w, rfl, .cut limit, ?_⟩
  rintro _ ⟨⟩

theorem fail (f : Fault) : Follows P id t w (Eval.fail f) post := by
  refine ⟨w.after (.alloc (.error f)), rfl, .fail f, ?_⟩
  rintro _ ⟨⟩

theorem leave {id : ScopeId} {v : Value} (fine : w.Ordinary v) :
    Follows P (some id) t w (Eval.leave v) post := by
  refine ⟨w.after (.alloc (.returned v)), rfl, .leave fine, ?_⟩
  rintro _ ⟨⟩

theorem visit {id : ScopeId} {u : Tree} {x : Traced (Option Value)} (known : P u)
    (h : Follows P (some id) u w x fun r w' => w'.Fine r) :
    Follows P (some id) t w (Machine.visit id u x) fun r w' => w'.Fine r := by
  obtain ⟨w', same, trace, fine⟩ := h
  refine ⟨w', same, ?_, fine⟩
  show Trace P (some id) t w (.entered id u w.store :: (x w.store).events ++
    [.left id u (x w.store).result (x w.store).store]) w' _
  rw [← same]
  exact .node known trace fun v result => fine (some v) result v rfl

end Follows

/-! Activations -/

theorem catchOutcome {x : Traced (Option Value)} {handle : Stop → Traced (Option Value)} {st : Store}
    (returned : ∀ a v st, handle (.returned a v) st = ⟨[], .ok (some v), st⟩)
    (others : ∀ stop st, (∀ a v, stop ≠ .returned a v) → handle stop st = ⟨[], .error stop, st⟩) :
    (tryCatch x handle : Traced (Option Value)) st =
      ⟨(x st).events, handed (x st).result, (x st).store⟩ := by
  show Traced.tryCatch x handle st = _
  unfold Traced.tryCatch
  rcases x st with ⟨l, stop | v, st'⟩
  · cases stop with
    | returned a v => simp [returned, handed]
    | _ => simp [others, handed]
  · rfl

theorem takeReturnOutcome (id : ScopeId) (x : Traced (Option Value)) (st : Store) :
    Eval.takeReturn id x st =
      ⟨.called id st :: (x st).events ++ [.answered id (handed (x st).result) (x st).store],
        handed (x st).result, (x st).store⟩ := by
  unfold Eval.takeReturn
  show (⟨.called id st :: _ ++ [.answered id _ _], _, _⟩ : Outcome _) = _
  rw [catchOutcome (fun _ _ _ => rfl)]
  intro stop st other
  cases stop with
  | returned a v => exact absurd rfl (other a v)
  | _ => rfl

theorem callOutcome (home : ScopeId) (params : List String) (args : List Value)
    (x : ScopeId → Traced (Option Value)) (st : Store) :
    (perform (.enter home params args) >>= fun j : ScopeId => Eval.takeReturn j (x j)) st =
      ⟨.did (.enter home params args) ((Act.enter home params args).run st).2 ::
          .called st.scopes.size ((Act.enter home params args).run st).2 ::
          (x st.scopes.size ((Act.enter home params args).run st).2).events ++
          [.answered st.scopes.size
            (handed (x st.scopes.size ((Act.enter home params args).run st).2).result)
            (x st.scopes.size ((Act.enter home params args).run st).2).store],
        handed (x st.scopes.size ((Act.enter home params args).run st).2).result,
        (x st.scopes.size ((Act.enter home params args).run st).2).store⟩ := by
  show (⟨[.did _ _] ++ (Eval.takeReturn st.scopes.size (x st.scopes.size) _).events,
    (Eval.takeReturn st.scopes.size (x st.scopes.size) _).result,
    (Eval.takeReturn st.scopes.size (x st.scopes.size) _).store⟩ : Outcome _) = _
  rw [takeReturnOutcome]
  rfl

section
variable {P : Tree → Prop} {id : Option ScopeId} {t : Tree} {w : World} {x : Traced (Option Value)}

theorem handedFine {l : List Event} {w' : World} {r : Except Stop (Option Value)} (sound : w.Sound P)
    (trace : Trace P id t w l w' (stopOf r)) (fine : ∀ a, r = .ok a → w'.Fine a) :
    ∀ v, handed r = .ok (some v) → w'.Ordinary v := by
  intro v given
  rcases r with stop | a
  · cases stop with
    | returned a u =>
      cases given
      exact trace.returned sound rfl
    | _ => cases given
  · cases given
    exact fine _ rfl v rfl

theorem handedResult {w' : World} {r : Except Stop (Option Value)}
    (given : ∀ v, handed r = .ok (some v) → w'.Ordinary v) :
    ∀ a, handed r = .ok a → w'.Fine a := by
  rintro a result v rfl
  exact given v result

theorem followsProgram {id : ScopeId} {body : List Tree} {line : Nat} (live : w.Live P (some id))
    (known : P (.program body line)) (h : Follows P (some id) t w x fun r w' => w'.Fine r) :
    Follows P (some id) t w (Eval.takeReturn id x) fun r w' => w'.Fine r := by
  obtain ⟨w', same, trace, fine⟩ := h
  have given := handedFine live.sound trace fine
  refine ⟨w', ?_, ?_, ?_⟩
  · rw [takeReturnOutcome, same]
  · rw [takeReturnOutcome, ← same]
    exact .program known trace given
  · rw [takeReturnOutcome]
    exact handedResult given

theorem followsCall {home : ScopeId} {params : List String} {args : List Value}
    {x : ScopeId → Traced (Option Value)} (live : w.Live P id) (there : home < w.store.scopes.size)
    (ordinary : ∀ v ∈ args, w.Ordinary v)
    (h : ∀ j w₁, w₁.Live P (some j) → Follows P (some j) .missing w₁ (x j) fun r w' => w'.Fine r) :
    Follows P id t w (perform (.enter home params args) >>= fun j : ScopeId => Eval.takeReturn j (x j))
      fun r w' => w'.Fine r := by
  have allowed : w.Admissible P id t (.enter home params args) := ⟨there, ordinary⟩
  have live₁ := World.enteredLive live.sound allowed
  obtain ⟨w', same, trace, fine⟩ := h w.store.scopes.size _ live₁
  have given := handedFine live₁.sound trace fine
  refine ⟨w', ?_, ?_, ?_⟩
  · rw [callOutcome, same]
    rfl
  · rw [callOutcome]
    have last := same.symm
    rw [World.afterStore] at last
    rw [last]
    exact .call allowed rfl trace given
  · rw [callOutcome]
    exact handedResult given

end

/-! Evaluation -/

section
variable {P : Tree → Prop} {id : Option ScopeId} {t : Tree} {w : World}

theorem followsAlloc {o : Object} (live : w.Live P id) (fine : w.SoundObject P o)
    (plain : o.tag.isMarker = false) :
    Follows P id t w (Eval.alloc o) fun v w' => w'.Ordinary v := by
  have allowed : w.Admissible P id t (.alloc o) := fine
  exact .thenAct live allowed plain fun _ _ => .pure (World.allocOrdinary live.sound plain)

theorem followsAnswer {reply : Store → Reply} (live : w.Live P id)
    (fine : w.SoundReply P (reply w.store)) :
    Follows P id t w (Eval.answer reply) fun v w' => w'.Ordinary v := by
  unfold Eval.answer
  refine .look ?_
  rcases same : reply w.store with f | v | o | _
  · exact .fail f
  · rw [same] at fine
    exact .pure fine
  · rw [same] at fine
    exact followsAlloc live fine.1 fine.2
  · exact .cut rfl

theorem followsPrintLine (depth : Nat) {v : Value} (fine : w.Ordinary v) :
    Follows P id t w (Eval.printLine depth v) fun _ _ => True := by
  refine .look ?_
  split
  · next text _ =>
    have allowed : w.Admissible P id t (.print ⟨v, text⟩) := fine
    exact .performs allowed trivial fun _ => trivial
  · exact .cut rfl

theorem copyFiled {key : Value} {k : HashKey}
    (found : (w.after (.copy key)).store.hashKey? (w.store.copy key).1 = some k) :
    (w.after (.copy key)).Filed k (w.store.copy key).1 := by
  refine ⟨found, fun a ref => ?_⟩
  rcases World.copyAfter w key with ⟨o, _, copied, same⟩ | ⟨fixed, copied, same⟩
  · rw [copied] at ref
    cases ref
    rw [same]
    exact List.mem_cons_self
  · rw [same, copied] at found
    rw [copied] at ref
    subst ref
    simp only [Store.hashKey?] at found
    split at found
    · next n there => exact absurd (fixed _ there) (by simp [Object.tag, Tag.isMutable])
    · next s there => exact absurd (fixed _ there) (by simp [Object.tag, Tag.isMutable])
    · cases found

theorem followsFile (live : w.Live P id) {d : Dict HashKey Entry} {key value : Value}
    (fine : w.SoundObject P (.hash d)) (fineKey : w.Ordinary key) (fineValue : w.Ordinary value) :
    Follows P id t w (Eval.file d key value) fun d' w' => w'.SoundObject P (.hash d') := by
  have allowed : w.Admissible P id t (.copy key) := fineKey
  refine .thenAct live allowed trivial fun _ before => .look ?_
  split
  · next k found =>
    refine .pure fun k' e there => ?_
    by_cases same : k' = k
    · subst same
      rw [Dict.getPutSelf] at there
      cases there
      exact ⟨copyFiled found, fineValue.later before⟩
    · rw [Dict.getPutOther _ _ same] at there
      exact fine.later before k' e there
  · exact .fail _

end

def Hereditary (P : Tree → Prop) : Prop := ∀ t, P t → ∀ u ∈ t.parts, P u

theorem everyTree : Hereditary fun _ => True := fun _ _ _ _ => trivial

def World.terms (P : Tree → Prop) : Terms where
  World := World
  Before := World.Before
  Sees w st st' := w.Sound P ∧ st = w.store ∧ st' = w.store
  Good := World.Ordinary
  Filed w d := w.SoundObject P (.hash d)
  Home w id := id < w.store.scopes.size
  Twins t u := t = u ∧ P t
  Bodies t u := t = u ∧ P t
  Depths := Eq
  acts := True

def tracing {P : Tree → Prop} (closed : Hereditary P) : Walk (World.terms P) Traced Traced where
  Rel id t w x _ post := World.Live P id w → Follows P id t w x fun a w' => (World.terms P).Holds w' post a
  goodLater before fine := World.Ordinary.later fine before
  filedLater {w w' d} before fine := by
    have entries : w.SoundObject P (.hash d) := fine
    exact entries.later before
  homeLater before there := World.Later.scopes before there
  goodNull := trivial
  goodBoolean := trivial
  filedNone := by rintro _ _ _ ⟨⟩
  shape := by
    rintro t _ ⟨rfl, known⟩
    have parts := closed t known
    refine .self (fun _ => trivial) (fun u member => ⟨rfl, parts u ?_⟩) ?_
    · cases t <;> first | exact member | cases member
    · rintro params body line rfl
      exact ⟨rfl, parts body (.head _)⟩
  called _ bodies := bodies
  held := by
    rintro w _ _ ⟨sound, rfl, rfl⟩ v
    refine .self fun params body home found => ?_
    obtain ⟨known, there⟩ := World.Sound.object sound found
    exact ⟨⟨rfl, known⟩, there⟩
  pure fine _ := .pure fine
  bind first rest live := (first live).bind live fun a w₁ live₁ before fine => rest w₁ a before fine live₁
  map h imp live := .map live ((h live).weaken fun a w' fine => imp w' a fine)
  look rest live := .look (rest _ _ ⟨World.Live.sound live, rfl, rfl⟩ live)
  limit limit _ := .cut limit
  marked := by
    rintro _ _ _ w _ _ _ v o ⟨_, rfl, _⟩ fine found marker
    rw [World.Ordinary.object fine found] at marker
    cases marker
  fail f _ := .fail f
  leave fine _ := .leave fine
  alloc := by
    rintro id t w _ _ (n | s | fine | fine | ⟨rfl, known⟩) live
    · exact followsAlloc live trivial rfl
    · exact followsAlloc live trivial rfl
    · exact followsAlloc live fine rfl
    · exact followsAlloc live fine rfl
    · exact followsAlloc live ⟨known, World.Live.there live id rfl⟩ rfl
  answer := by
    rintro id t w _ _ asks live
    have sound := World.Live.sound live
    cases asks with
    | name j name => exact followsAnswer live (World.soundName sound j name)
    | unary op v => exact followsAnswer live (World.soundUnary op v)
    | binary _ op u v => exact followsAnswer live (World.soundBinary _ op u v)
    | index v place => exact followsAnswer live (World.soundIndex sound v place)
    | dot v key => exact followsAnswer live (World.soundAttribute sound v key)
    | library b fine => exact followsAnswer live (World.soundLibrary sound b fine)
  file fine fineKey fineValue live := followsFile live fine fineKey fineValue
  act := by
    rintro id t w _ _ (⟨rebinds, fine⟩ | fine) live
    · exact .performs ⟨rfl, rebinds, fine⟩ trivial fun _ => trivial
    · exact .performs ⟨rfl, fine⟩ trivial fun _ => trivial
  printLine _ _ fine _ := followsPrintLine _ fine
  call _ there fine h live := followsCall live there fine h
  program twins h live := followsProgram live twins.2 (h live)
  visit := by
    rintro id t u _ w x _ ⟨rfl, known⟩ h live
    exact .visit known (h live)

def Evaluates (P : Tree → Prop) (ev : Evaluator Traced) : Prop :=
  ∀ id t u w, w.Live P (some id) → P u →
    Follows P (some id) t w (ev id u) fun r w' => w'.Fine r

section
variable {P : Tree → Prop} {id : Option ScopeId} {j : ScopeId} {t : Tree} {w : World}

theorem fineNone : w.Fine none := nofun

theorem Evaluates.walks {ev : Evaluator Traced} (h : Evaluates P ev) (closed : Hereditary P) :
    (tracing closed).Evaluates ev ev := by
  rintro id t w u _ ⟨rfl, known⟩ live
  exact h id t u w live known

theorem followsWithin (closed : Hereditary P) (rounds depth : Nat) : Evaluates P (Eval.within rounds depth) :=
  fun id t u w live known =>
    (tracing closed).within (fun _ => rfl) rounds depth id t w u u ⟨rfl, known⟩ live

theorem followsOperand (closed : Hereditary P) {ev : Evaluator Traced} (h : Evaluates P ev)
    (live : w.Live P (some j)) {u : Tree} (known : P u) :
    Follows P (some j) t w (Eval.operand ev j u) fun v w' => w'.Ordinary v :=
  (tracing closed).operand (h.walks closed) ⟨rfl, known⟩ live

theorem followsSequence (closed : Hereditary P) (rounds depth : Nat) (live : w.Live P (some j))
    {us : List Tree} (known : ∀ u ∈ us, P u) :
    Follows P (some j) t w (Eval.sequence (Eval.within rounds depth) j none us) fun r w' => w'.Fine r :=
  (tracing closed).sequence ((followsWithin closed rounds depth).walks closed) fineNone
    (List.forall₂_same.2 fun u member => ⟨rfl, known u member⟩) live

theorem followsApply (closed : Hereditary P) (limits : Limits) (live : w.Live P id) (fn : Value)
    {args : List Value} (fine : ∀ v ∈ args, w.Ordinary v) :
    Follows P id t w (limits.traceApply fn args) fun r w' => w'.Fine r :=
  (tracing closed).apply ((followsWithin closed limits.rounds limits.depth).walks closed) trivial limits.rounds
    rfl fn fine live

theorem followsStep (closed : Hereditary P) (rounds depth : Nat) (live : w.Live P (some j)) {t : Tree}
    (known : P t) :
    Follows P (some j) t w (Eval.step (Eval.within rounds depth) rounds depth j t) fun r w' => w'.Fine r :=
  (tracing closed).step ((followsWithin closed rounds depth).walks closed) rounds rfl ⟨rfl, known⟩ live

end
end Baby
