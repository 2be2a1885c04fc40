import Mathlib.Logic.Relation
import Baby.Proofs.Evaluation
import Baby.Proofs.Log
import Baby.Proofs.ParsedTrees

/-! Sessions: what runs one after another lead to, whether they end or are cut off at some moment. -/
namespace Baby

/-! Values -/

namespace Store

def Data (st : Store) : Value → Prop
  | .ref a => ∃ o, st.objects[a]? = some o ∧ o.tag.isMarker = false
  | _ => True

def IsKey (st : Store) (a : Addr) : Prop :=
  ∃ (b : Addr) (d : Dict HashKey Entry), st.objects[b]? = some (.hash d) ∧
    ∃ filed ∈ d.entries, filed.2.key = .ref a

/- A value that a function may be called with. The keys of entries are copies that no program gets
hold of. -/
def Usable (st : Store) (v : Value) : Prop := st.Data v ∧ ∀ a, v = .ref a → ¬ st.IsKey a

end Store

section
variable {P : Tree → Prop} {w : World} {v : Value}

theorem World.Ordinary.data (h : w.Ordinary v) : w.store.Data v := by
  cases v with
  | ref a => exact h.1
  | _ => trivial

theorem World.Ordinary.usable (h : w.Ordinary v) (sound : w.Sound P) : w.store.Usable v := by
  refine ⟨h.data, ?_⟩
  rintro a rfl ⟨b, d, found, filed, member, key⟩
  obtain ⟨⟨_, kept⟩, _⟩ := sound.objects b _ found filed.1 filed.2 (Dict.memGet member)
  exact h.2 (kept a key)

theorem Path.calledUsable {own : ScopeId → Prop} {w' : World} {l : List Event}
    (h : Path P own w l w') (sound : w.Sound P) {home : ScopeId} {params : List String}
    {args : List Value} {st : Store} (member : .did (.enter home params args) st ∈ l) :
    ∀ v ∈ args, st.Usable v := by
  induction h with
  | nil => cases member
  | quiet still _ _ ih =>
    rcases List.mem_cons.1 member with rfl | member
    · cases still
    · exact ih sound member
  | act _ fine _ ih =>
    have sound₁ := World.actSound sound fine
    rcases List.mem_cons.1 member with same | member
    · cases same
      exact fun v given => ((fine.2 v given).later (World.actLater sound fine)).usable sound₁
    · exact ih sound₁ member

theorem World.Ordinary.fewer {keys : List Addr} (h : w.Ordinary v) (fewer : ∀ a ∈ keys, a ∈ w.keys) :
    World.Ordinary ⟨w.store, keys⟩ v := by
  cases v with
  | ref a => exact ⟨h.1, fun key => h.2 (fewer a key)⟩
  | _ => trivial

open Classical in
theorem World.Sound.trim (h : w.Sound P) : ∃ keys, World.Sound P ⟨w.store, keys⟩ ∧
    ∀ v, w.store.Usable v → World.Ordinary ⟨w.store, keys⟩ v := by
  have fewer (a : Addr) (key : a ∈ w.keys.filter fun a => w.store.IsKey a) : a ∈ w.keys :=
    (List.mem_filter.1 key).1
  refine ⟨w.keys.filter fun a => w.store.IsKey a, ?_, fun v usable => ?_⟩
  · refine ⟨fun b o found => ?_, fun id s found name v held =>
      (h.names id s found name v held).fewer fewer, h.outer, fun a key => h.keys a (fewer a key)⟩
    have fine := h.objects b o found
    cases o with
    | array xs => exact fun v member => (fine v member).fewer fewer
    | hash d =>
      intro k e there
      obtain ⟨⟨hashed, filed⟩, value⟩ := fine k e there
      refine ⟨⟨hashed, fun a ref => List.mem_filter.2 ⟨filed a ref, ?_⟩⟩, value.fewer fewer⟩
      exact decide_eq_true ⟨b, d, found, (k, e), Dict.getMem there, ref⟩
    | returned v => exact World.Ordinary.fewer fine fewer
    | _ => exact fine
  · cases v with
    | ref a => exact ⟨usable.1, fun key => usable.2 a rfl (of_decide_eq_true (List.mem_filter.1 key).2)⟩
    | _ => trivial

end

/-! Outcomes -/

inductive Outcome.Moment {α : Type} (o : Outcome α) : List Event → Store → Prop where
  | ended : Moment o o.events o.store
  | during {l e l'} (place : o.events = l ++ e :: l') : Moment o (l ++ [e]) e.store

namespace Outcome
variable {α : Type} {o : Outcome α} {l : List Event} {st : Store}

theorem Moment.begins (h : o.Moment l st) : l <+: o.events := by
  cases h with
  | ended => exact List.prefix_rfl
  | during place =>
    rw [place]
    exact ⟨_, (List.append_cons ..).symm⟩

theorem Moment.path {P : Tree → Prop} {own : ScopeId → Prop} {w w' : World} (h : o.Moment l st)
    (path : Path P own w o.events w') (same : w'.store = o.store) :
    ∃ w₁, w₁.store = st ∧ Path P own w l w₁ := by
  cases h with
  | ended => exact ⟨w', same, path⟩
  | during place =>
    rw [place] at path
    exact path.moment

def ending (o : Outcome (Option Value)) : Ending :=
  match o.result with
  | .ok r => .finished r
  | .error stop => .ofStop stop

end Outcome

theorem finishErase (x : Traced (Option Value)) (st : Store) :
    x.erase.finish st = ((x st).ending, (x st).store) := by
  show (match ((x st).result, (x st).store) with
    | (.ok result, st) => (Ending.finished result, st)
    | (.error stop, st) => (Ending.ofStop stop, st)) = _
  unfold Outcome.ending
  cases (x st).result <;> rfl

/-! Programs -/

section
variable {P : Tree → Prop} {id : ScopeId} {w : World} {body : List Tree} {line : Nat}
  {st : Store}

theorem settleOutcome {v : Value} (fine : w.Ordinary v) :
    (Eval.settle v : Traced Value) w.store = ⟨[], .ok v, w.store⟩ := by
  cases v with
  | ref a =>
    obtain ⟨⟨o, found, plain⟩, _⟩ := fine
    have object : w.store.object? (.ref a) = some o := found
    unfold Eval.settle
    show Traced.bind Machine.look _ w.store = _
    unfold Traced.bind
    dsimp only [Machine.look]
    rw [object]
    cases o with
    | error | returned => cases plain
    | _ => rfl
  | _ => rfl

theorem settledOutcome {x : Traced (Option Value)} (same : w.store = (x st).store)
    (fine : ∀ v, (x st).result = .ok (some v) → w.Ordinary v) :
    (x >>= fun r => match r with
      | some v => some <$> Eval.settle v
      | none => pure none : Traced (Option Value)) st = x st := by
  show Traced.bind x _ st = _
  unfold Traced.bind
  rcases outcome : x st with ⟨l, stop | _ | v, st'⟩
  · rfl
  · show (⟨l ++ [], .ok none, st'⟩ : Outcome (Option Value)) = _
    rw [List.append_nil]
  · rw [outcome] at same fine
    have settled : (some <$> Eval.settle v : Traced (Option Value)) st' = ⟨[], .ok (some v), st'⟩ := by
      show Traced.bind (Eval.settle v) (fun v => pure (some v)) st' = _
      unfold Traced.bind
      have start : st' = w.store := same.symm
      rw [start, settleOutcome (fine v rfl)]
      rfl
    show (⟨l ++ ((some <$> Eval.settle v : Traced (Option Value)) st').events, _, _⟩ :
      Outcome (Option Value)) = _
    simp [settled]

theorem withinOutcome {rounds depth : Nat} {t : Tree} {o : Outcome (Option Value)}
    (step : (Eval.step (Eval.within rounds depth) rounds depth id t : Traced _) st = o)
    (same : w.store = o.store) (fine : ∀ v, o.result = .ok (some v) → w.Ordinary v) :
    (Eval.within rounds (depth + 1) id t : Traced _) st =
      ⟨.entered id t st :: o.events ++ [.left id t o.result o.store], o.result, o.store⟩ := by
  subst step
  have settled := settledOutcome same fine
  exact congrArg (fun o : Outcome (Option Value) =>
    (⟨.entered id t st :: o.events ++ [.left id t o.result o.store], o.result, o.store⟩ :
      Outcome (Option Value))) settled

theorem programOutcome (closed : Hereditary P) (live : w.Live P (some id))
    (known : ∀ t ∈ body, P t) (limits : Limits) :
    limits.trace id (.program body line) w.store = ⟨[], .error .depth, w.store⟩ ∨
    ∃ l w' r, Trace P (some id) (.program body line) w l w' (stopOf r) ∧
      (∀ v, handed r = .ok (some v) → w'.Ordinary v) ∧
      limits.trace id (.program body line) w.store =
        ⟨.entered id (.program body line) w.store ::
            (.called id w.store :: l ++ [.answered id (handed r) w'.store]) ++
            [.left id (.program body line) (handed r) w'.store], handed r, w'.store⟩ := by
  obtain ⟨depth, rounds⟩ := limits
  cases depth with
  | zero => exact .inl rfl
  | succ depth =>
    have follows : Follows P (some id) (.program body line) w
        (Eval.sequence (Eval.within rounds depth) id none body) fun r w' => w'.Fine r :=
      followsSequence closed rounds depth live known
    obtain ⟨w', same, trace, fine⟩ := follows
    have given := handedFine live.sound trace fine
    have taken : (Eval.step (Eval.within rounds depth) rounds depth id (.program body line) : Traced _)
        w.store = _ := takeReturnOutcome id _ w.store
    refine .inr ⟨_, w', _, trace, given, ?_⟩
    rw [same]
    exact withinOutcome taken same given

theorem programPath (closed : Hereditary P) (live : w.Live P (some id)) (known : ∀ t ∈ body, P t)
    (limits : Limits) :
    ∃ w', w'.store = (limits.trace id (.program body line) w.store).store ∧
      Path P (w.Reaches (some id)) w (limits.trace id (.program body line) w.store).events w' := by
  rcases programOutcome closed live known limits with cut | ⟨l, w', r, trace, _, outcome⟩
  · rw [cut]
    exact ⟨w, rfl, .nil⟩
  · rw [outcome]
    have inside : Path P (w.Reaches (some id)) w (.called id w.store :: l ++
        [.answered id (handed r) w'.store]) w' :=
      .quiet rfl rfl ((trace.path live.sound).append (.quiet rfl rfl .nil))
    exact ⟨w', rfl, .quiet rfl rfl (inside.append (.quiet rfl rfl .nil))⟩

theorem programRebinds (closed : Hereditary P) (live : w.Live P (some id)) (known : ∀ t ∈ body, P t)
    (limits : Limits) {j : ScopeId} {name : String}
    (again : Path.Rebound (limits.trace id (.program body line) w.store).events j name) :
    ∃ t, P t ∧ t.Rebinds name := by
  obtain ⟨v, st, member⟩ := again
  rcases programOutcome closed live known limits with cut | ⟨l, w', r, trace, _, outcome⟩
  · rw [cut] at member
    cases member
  · rw [outcome] at member
    have inside : .did (.bind j name v) st ∈ l := by simpa using member
    obtain ⟨front, back, place⟩ := List.append_of_mem inside
    rcases trace.boundBy place with ⟨_, binds⟩ | ⟨u, st', entered, binds⟩
    · exact binds.elim
    · have within : .entered j u st' ∈ l := by
        rw [place]
        exact List.mem_append_left _ entered
      exact ⟨u, trace.enteredKnown within, binds⟩

end

/-! Steps -/

namespace Session

def trace (s : Session) (t : Tree) : Outcome (Option Value) := s.limits.trace s.root t s.store

theorem executeTrace (s : Session) (t : Tree) :
    s.execute t = ((s.trace t).ending, { s with store := (s.trace t).store }) := by
  have finished := finishErase (s.limits.trace s.root t) s.store
  rw [Limits.eraseTrace] at finished
  unfold execute
  rw [finished]
  rfl

/- What can happen to a session: a source is run to its end, or is cut off at some moment of its run;
what was printed is taken; or there is more or less room for the next run. Sources that parse have trees
in `Q`. -/
inductive Step (Q : Tree → Prop) : Session → Session → Prop where
  | run {s} (source : String) (allowed : ∀ tree, parse source = .ok ⟨tree, []⟩ → Q tree) :
      Step Q s (s.run source).2
  | cut {s source tree l st} (parsed : parse source = .ok ⟨tree, []⟩) (allowed : Q tree)
      (moment : (s.trace tree).Moment l st) : Step Q s { s with store := st }
  | taken {s} : Step Q s s.takePrinted.2
  | limit {s} (limits : Limits) : Step Q s { s with limits }

def Leads (Q : Tree → Prop) : Session → Session → Prop := Relation.ReflTransGen (Step Q)

def Reachable (Q : Tree → Prop) (s : Session) : Prop :=
  ∃ limits, Leads Q (.ofStore .empty limits) s

structure Shows (Q : Tree → Prop) (s : Session) (w : World) : Prop where
  store : w.store = s.store
  live : w.Live (fun t => t.Inner ∧ Q t) (some s.root)

section
variable {Q : Tree → Prop} {s s' : Session} {w : World}

theorem stepPath (closed : Hereditary Q) {source : String} {tree : Tree} {l : List Event} {st : Store}
    (shows : s.Shows Q w) (parsed : parse source = .ok ⟨tree, []⟩) (allowed : Q tree)
    (moment : (s.trace tree).Moment l st) :
    ∃ w', Shows Q { s with store := st } w' ∧
      Path (fun t => t.Inner ∧ Q t) (w.Reaches (some s.root)) w l w' ∧
      ∀ j name, Path.Rebound l j name → ∃ t, Q t ∧ t.Rebinds name := by
  obtain ⟨body, line, rfl, inner⟩ := parsedProgram parsed
  have known (t : Tree) (member : t ∈ body) : t.Inner ∧ Q t :=
    ⟨inner t member, closed _ allowed t member⟩
  have parts : Hereditary fun t => t.Inner ∧ Q t := fun t both u member =>
    ⟨everyHereditary _ t both.1 u member, closed t both.2 u member⟩
  obtain ⟨st₀, root, limits⟩ := s
  obtain ⟨rfl, live⟩ := shows
  obtain ⟨w', last, path⟩ := programPath parts live known limits
  obtain ⟨w₁, rfl, upTo⟩ := moment.path path last
  obtain ⟨later, sound⟩ := upTo.later live.sound
  refine ⟨w₁, ⟨rfl, live.later later sound⟩, upTo, ?_⟩
  rintro j name ⟨v, st, member⟩
  obtain ⟨t, ⟨_, allowed⟩, binds⟩ :=
    programRebinds parts live known limits ⟨v, st, moment.begins.mem member⟩
  exact ⟨t, allowed, binds⟩

theorem stepMoment (closed : Hereditary Q) {source : String} {tree : Tree} {l : List Event} {st : Store}
    (shows : s.Shows Q w) (parsed : parse source = .ok ⟨tree, []⟩) (allowed : Q tree)
    (moment : (s.trace tree).Moment l st) :
    ∃ w', Shows Q { s with store := st } w' ∧
      w.Later (fun _ => True) (fun _ name => ∃ t, Q t ∧ t.Rebinds name) w' := by
  obtain ⟨w', shows', path, rebound⟩ := stepPath closed shows parsed allowed moment
  have later := (path.later shows.live.sound).1
  exact ⟨w', shows', later.weaken (fun _ _ _ => trivial) fun j name _ _ again => rebound j name again⟩

theorem stepLater (closed : Hereditary Q) (h : Step Q s s') (shows : s.Shows Q w) :
    ∃ w', s'.Shows Q w' ∧ w.Later (fun _ => True) (fun _ name => ∃ t, Q t ∧ t.Rebinds name) w' := by
  cases h with
  | run source allowed =>
    unfold run
    split
    · exact ⟨w, shows, .refl w⟩
    · next tree parsed =>
      rw [executeTrace]
      exact stepMoment closed shows parsed (allowed tree parsed) .ended
    · exact ⟨w, shows, .refl w⟩
  | cut parsed allowed moment => exact stepMoment closed shows parsed allowed moment
  | taken =>
    have sound := World.printedSound shows.live.sound #[]
    refine ⟨⟨w.store.clearPrinted, w.keys⟩, ⟨?_, sound, shows.live.there⟩,
      World.printedLater shows.live.sound #[]⟩
    rw [shows.store]
    rfl
  | limit limits => exact ⟨w, ⟨shows.store, shows.live⟩, .refl w⟩

theorem leadsLater (closed : Hereditary Q) (h : Leads Q s s') (shows : s.Shows Q w) :
    ∃ w', s'.Shows Q w' ∧ w.Later (fun _ => True) (fun _ name => ∃ t, Q t ∧ t.Rebinds name) w' := by
  induction h with
  | refl => exact ⟨w, shows, .refl w⟩
  | tail _ step ih =>
    obtain ⟨w₁, shows₁, later₁⟩ := ih
    obtain ⟨w₂, shows₂, later₂⟩ := stepLater closed step shows₁
    exact ⟨w₂, shows₂, later₁.trans later₂⟩

theorem newShows (limits : Limits) : ∃ w, Shows Q (.ofStore .empty limits) w := by
  have sound : World.Sound (fun t => t.Inner ∧ Q t) ⟨.empty, []⟩ := by
    constructor <;> simp [Store.empty]
  have around (id : ScopeId) (outside : none = some id) : id < Store.empty.scopes.size := by
    cases outside
  refine ⟨_, rfl, World.openSound sound around, ?_⟩
  rintro _ ⟨⟩
  exact Nat.zero_lt_one

theorem reachableShows (closed : Hereditary Q) (h : s.Reachable Q) : ∃ w, s.Shows Q w := by
  obtain ⟨limits, leads⟩ := h
  obtain ⟨w₀, first⟩ := newShows limits
  obtain ⟨w, shows, _⟩ := leadsLater closed leads first
  exact ⟨w, shows⟩

theorem Shows.usable (shows : s.Shows Q w) :
    ∃ w', s.Shows Q w' ∧ ∀ v, s.store.Usable v → w'.Ordinary v := by
  obtain ⟨keys, sound, ordinary⟩ := shows.live.sound.trim
  refine ⟨⟨w.store, keys⟩, ⟨shows.store, sound, shows.live.there⟩, ?_⟩
  rw [← shows.store]
  exact ordinary

end
end Session
end Baby
