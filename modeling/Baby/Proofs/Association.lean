import Mathlib.Data.List.Find
import Mathlib.Data.List.Induction
import Baby.Proofs.Assignment
import Baby.Proofs.HashLiterals
import Baby.Proofs.Sequences

/-! Hashes are associations by equality. Entries are found by type and digest alone; but a digest tells
integers and booleans apart by itself, and strings unless two of them clash, so look-up gives the value of
the last pair with an equal key. -/
namespace Baby

/-! Digests -/

namespace Store
variable {st : Store} {v w : Value} {h : HashKey}

def Clash (st : Store) (v w : Value) : Prop :=
  ∃ s t, st.object? v = some (.string s) ∧ st.object? w = some (.string t) ∧ s ≠ t ∧
    Text.Fnv.digest s = Text.Fnv.digest t

def Unclashing (st : Store) (vs : List Value) : Prop := ∀ v ∈ vs, ∀ w ∈ vs, ¬ st.Clash v w

theorem hashableKey : (st.tag v).isHashable = true ↔ ∃ h, st.hashKey? v = some h := by
  cases v with
  | ref a =>
    cases found : st.objects[a]? with
    | none => simp [tag, hashKey?, found, Tag.isHashable]
    | some o => cases o <;> simp [tag, hashKey?, found, Object.tag, Tag.isHashable]
  | _ => simp [tag, hashKey?, Tag.isHashable]

theorem hashKeyCases (hashed : st.hashKey? v = some h) :
    (∃ b, v = .boolean b ∧ h = ⟨.boolean, if b then 1 else 0⟩) ∨
      (∃ n, st.object? v = some (.integer n) ∧ h = ⟨.integer, n.toUInt64⟩) ∨
      ∃ s, st.object? v = some (.string s) ∧ h = ⟨.string, Text.Fnv.digest s⟩ := by
  cases v with
  | boolean b => exact .inl ⟨b, rfl, (Option.some.inj hashed).symm⟩
  | ref a =>
    simp only [hashKey?] at hashed
    split at hashed
    · next n found => exact .inr (.inl ⟨n, found, (Option.some.inj hashed).symm⟩)
    · next s found => exact .inr (.inr ⟨s, found, (Option.some.inj hashed).symm⟩)
    · cases hashed
  | null | builtin => cases hashed

theorem hashKeySame (left : st.hashKey? v = some h) (right : st.hashKey? w = some h) :
    st.equal v w = true ∨ st.Clash v w := by
  rcases hashKeyCases left with ⟨b, rfl, rfl⟩ | ⟨n, found, rfl⟩ | ⟨s, found, rfl⟩
  · rcases hashKeyCases right with ⟨c, rfl, same⟩ | ⟨m, _, same⟩ | ⟨t, _, same⟩
    · have digests := congrArg HashKey.digest same
      have truths : b = c := by cases b <;> cases c <;> first | rfl | cases digests
      rw [truths]
      exact .inl (st.equalSelf _)
    · cases same
    · cases same
  · rcases hashKeyCases right with ⟨c, rfl, same⟩ | ⟨m, found', same⟩ | ⟨t, _, same⟩
    · cases same
    · have digests : n.toUInt64 = m.toUInt64 := congrArg HashKey.digest same
      have integers : n = m := congrArg Int64.ofUInt64 digests
      rw [← integers] at found'
      exact .inl (contentsEqual found found' rfl)
    · cases same
  · rcases hashKeyCases right with ⟨c, rfl, same⟩ | ⟨m, _, same⟩ | ⟨t, found', same⟩
    · cases same
    · cases same
    · by_cases differ : s = t
      · rw [← differ] at found'
        exact .inl (contentsEqual found found' rfl)
      · exact .inr ⟨s, t, found, found', differ, congrArg HashKey.digest same⟩

theorem equalHashKey (hashed : st.hashKey? v = some h) (same : st.equal v w = true) :
    st.hashKey? w = some h := by
  cases equalBisimulation st v w same with
  | same => exact hashed
  | integer left right | string left right => rw [← hashed, hashObject left right]
  | array left | hash left =>
    rcases hashKeyCases hashed with ⟨b, rfl, _⟩ | ⟨n, found, _⟩ | ⟨s, found, _⟩
    · cases left
    · cases left.symm.trans found
    · cases left.symm.trans found

theorem Clash.hashKey (clash : st.Clash v w) : st.hashKey? v = st.hashKey? w := by
  obtain ⟨s, t, left, right, _, digests⟩ := clash
  cases v with
  | ref a =>
    cases w with
    | ref b =>
      have here : st.objects[a]? = some (.string s) := left
      have there : st.objects[b]? = some (.string t) := right
      simp only [hashKey?, here, there, digests]
    | _ => cases right
  | _ => cases left

theorem sameHashKey {h' : HashKey} (left : st.hashKey? v = some h) (right : st.hashKey? w = some h') :
    h = h' ↔ st.equal v w = true ∨ st.Clash v w := by
  constructor
  · rintro rfl
    exact hashKeySame left right
  · rintro (same | clash)
    · exact Option.some.inj ((equalHashKey left same).symm.trans right)
    · exact Option.some.inj (left.symm.trans (clash.hashKey.trans right))

theorem equalIffHashKey {h' : HashKey} (left : st.hashKey? v = some h) (right : st.hashKey? w = some h')
    (apart : ¬ st.Clash v w) : st.equal v w = true ↔ h = h' := by
  rw [sameHashKey left right]
  exact (or_iff_left apart).symm

theorem Grows.hashKey {st' : Store} (grows : st.Grows st') (hashed : st.hashKey? v = some h) :
    st'.hashKey? v = some h := by
  rcases hashKeyCases hashed with ⟨b, rfl, _⟩ | ⟨n, found, _⟩ | ⟨s, found, _⟩
  · exact hashed
  · rw [← hashed, hashObject found (grows.kept v _ found)]
  · rw [← hashed, hashObject found (grows.kept v _ found)]

end Store

/-! Filing -/

namespace Dict
variable {κ α : Type} [DecidableEq κ]

def putAll (d : Dict κ α) (fs : List (κ × α)) : Dict κ α := fs.foldl (fun d f => d.put f.1 f.2) d

theorem keysPutAll (fs : List (κ × α)) : (empty.putAll fs).keys = (fs.map Prod.fst).eraseDups := by
  induction fs using List.reverseRecOn with
  | nil => rfl
  | append_singleton fs f ih =>
    rw [putAll, List.foldl_append, List.map_append, List.map_singleton, eraseDupsConcat, ← ih]
    exact keysPut ..

theorem getPutAll (fs : List (κ × α)) (k : κ) :
    (empty.putAll fs).get? k = (fs.reverse.find? fun f => f.1 = k).map Prod.snd := by
  induction fs using List.reverseRecOn with
  | nil => rfl
  | append_singleton fs f ih =>
    rw [putAll, List.foldl_append, List.reverse_append, List.reverse_singleton, List.singleton_append]
    by_cases same : f.1 = k
    · rw [List.find?_cons_of_pos (by simpa using same), ← same]
      exact getPutSelf ..
    · rw [List.find?_cons_of_neg (by simpa using same), ← ih]
      exact getPutOther _ _ (Ne.symm same)

end Dict

/- The pairs of a literal as they are evaluated, one after the other, with the hash keys they are filed
under. A key is copied once its value is known. -/
inductive Evaluated (ev : Evaluator Eval) (id : ScopeId) :
    Store → List (Tree × Tree) → List (HashKey × Entry) → Store → Prop where
  | none {st} : Evaluated ev id st [] [] st
  | pair {st st₁ st₂ st₃ last k t key value h shown ps fs}
      (keyed : (ev id k).run.run st = (.ok (some key), st₁)) (hashable : (st₁.tag key).isHashable = true)
      (valued : (ev id t).run.run st₁ = (.ok (some value), st₂)) (filed : st₂.hashKey? key = some h)
      (copied : st₂.copy key = (shown, st₃)) (rest : Evaluated ev id st₃ ps fs last) :
      Evaluated ev id st ((k, t) :: ps) ((h, ⟨shown, value⟩) :: fs) last

theorem Eval.fileRun {st st' : Store} {d : Dict HashKey Entry} {key value shown : Value} {h : HashKey}
    (filed : st.hashKey? key = some h) (copied : st.copy key = (shown, st')) :
    (Eval.file d key value : Eval _).run.run st = (.ok (d.put h ⟨shown, value⟩), st') := by
  have hashed : st'.hashKey? shown = some h := by
    rw [← filed, ← copyHash st key, copied]
  have copies : (Eval.copy key : Eval _).run.run st = (.ok shown, st') := by
    show (Except.ok (st.copy key).1, (st.copy key).2) = _
    rw [copied]
  have looked (f : Store → Eval (Dict HashKey Entry)) :
      (Machine.look >>= f).run.run st' = (f st').run.run st' := rfl
  rw [Eval.file, Mimics.runBind, copies]
  dsimp only
  rw [looked, hashed]
  rfl

theorem Evaluated.entries {ev : Evaluator Eval} {id : ScopeId} {st last : Store} {pairs : List (Tree × Tree)}
    {fs : List (HashKey × Entry)} (h : Evaluated ev id st pairs fs last) (d : Dict HashKey Entry) :
    (Eval.entries ev id d pairs).run.run st = (.ok (d.putAll fs), last) := by
  induction h generalizing d with
  | none => rfl
  | @pair st st₁ st₂ st₃ last k t key value h shown ps fs keyed hashable valued filed copied rest ih =>
    obtain ⟨_, given⟩ := Store.hashableKey.1 hashable
    simp only [Eval.entries]
    rw [Mimics.runBind, Eval.operandRun keyed]
    show (Eval.failIf (st₁.hashKey? key).isNone _ >>= _ : Eval _).run.run st₁ = _
    rw [given]
    show (Eval.operand ev id t >>= _ : Eval _).run.run st₁ = _
    rw [Mimics.runBind, Eval.operandRun valued]
    show (Eval.file d key value >>= _ : Eval _).run.run st₂ = _
    rw [Mimics.runBind, Eval.fileRun filed copied]
    exact ih (d.put h ⟨shown, value⟩)

def Store.Keyed (st : Store) (fs : List (HashKey × Entry)) : Prop := ∀ f ∈ fs, st.hashKey? f.2.key = some f.1

theorem Store.Keyed.grows {st st' : Store} {fs : List (HashKey × Entry)} (keyed : st.Keyed fs)
    (grows : st.Grows st') : st'.Keyed fs :=
  fun f member => grows.hashKey (keyed f member)

/-! Look-up -/

def Store.Looks (st : Store) (u k v : Value) : Prop :=
  ∀ (ev : Evaluator Eval) (rounds depth : Nat) (id : ScopeId) (target key : Tree) (line : Nat) (st₀ st₁ : Store),
    (ev id target).run.run st₀ = (.ok (some u), st₁) → st₁.tag u = .hash →
    (ev id key).run.run st₁ = (.ok (some k), st) →
      (Eval.step ev rounds depth id (.dot target key line)).run.run st₀ = (.ok (some v), st)

theorem looksOf {st : Store} {u k v : Value} (answered : st.attributeReply u k = .ok (.old v)) :
    st.Looks u k v := by
  intro ev rounds depth id target key line st₀ st₁ first isHash second
  simp only [Eval.step]
  rw [Mimics.runBind, Eval.operandRun first]
  show (Eval.failIf (decide (st₁.tag u ≠ .hash)) _ >>= _ : Eval _).run.run st₁ = _
  rw [isHash]
  show (Eval.operand ev id key >>= _ : Eval _).run.run st₁ = _
  rw [Mimics.runBind, Eval.operandRun second]
  show (some <$> Eval.answer (·.attributeReply u k) : Eval _).run.run st = _
  rw [answerOutcome, answered]
  rfl

/-! Associations -/

def Store.lastPair? (st : Store) (fs : List (HashKey × Entry)) (k : Value) : Option Entry :=
  (fs.reverse.find? fun f => st.equal f.2.key k).map Prod.snd

/- The first pair of each class of equal keys. -/
def Store.firstPairs (st : Store) (fs : List (HashKey × Entry)) : List (HashKey × Entry) :=
  fs.eraseDupsBy fun f g => st.equal f.2.key g.2.key

section
variable {α β : Type} {r : α → α → Bool} {l : List α}

theorem eraseDupsInduction {motive : List α → Prop} (nil : motive [])
    (cons : ∀ a l, motive (l.filter fun b => r b a = false) → motive (a :: l)) (l : List α) : motive l := by
  induction long : l.length using Nat.strong_induction_on generalizing l with
  | _ n ih =>
    cases l with
    | nil => exact nil
    | cons a l =>
      have fewer : (l.filter fun b => r b a = false).length < n := by
        rw [← long]
        exact Nat.lt_succ_of_le (List.length_filter_le _ l)
      exact cons a l (ih _ fewer _ rfl)

theorem memEraseDupsBy {a : α} (member : a ∈ l.eraseDupsBy r) : a ∈ l := by
  induction l using eraseDupsInduction (r := r) with
  | nil => exact member
  | cons b l ih =>
    rw [List.eraseDupsBy_cons, List.mem_cons] at member
    rcases member with rfl | member
    · exact List.mem_cons_self
    · exact List.mem_cons_of_mem b (List.mem_of_mem_filter (ih member))

theorem eraseDupsFirsts [DecidableEq β] {g : α → β} (same : ∀ a ∈ l, ∀ b ∈ l, (r a b = true ↔ g a = g b)) :
    (l.eraseDupsBy r).map g = (l.map g).eraseDups := by
  induction l using eraseDupsInduction (r := r) with
  | nil => rfl
  | cons a l ih =>
    have others : (l.map g).filter (fun c => !c == g a) = (l.filter fun b => r b a = false).map g := by
      rw [List.filter_map]
      congr 1
      apply List.filter_congr
      intro b member
      have classes := same b (List.mem_cons_of_mem a member) a List.mem_cons_self
      cases alike : r b a <;> simp_all
    have inside {b : α} (member : b ∈ l.filter fun b => r b a = false) : b ∈ a :: l :=
      List.mem_cons_of_mem a (List.mem_of_mem_filter member)
    rw [List.eraseDupsBy_cons, List.map_cons, List.map_cons, List.eraseDups_cons, others]
    congr 1
    exact ih fun b member c member' => same b (inside member) c (inside member')

end

section
variable {st : Store} {fs : List (HashKey × Entry)} (keyed : st.Keyed fs)
include keyed

theorem lastFiled {k : Value} {h : HashKey} (hashed : st.hashKey? k = some h)
    (apart : st.Unclashing (k :: fs.map (·.2.key))) : st.lastPair? fs k = (Dict.empty.putAll fs).get? h := by
  rw [Dict.getPutAll, Store.lastPair?]
  congr 1
  apply List.find?_congr
  intro f member
  have member := List.mem_reverse.1 member
  have other := apart f.2.key (List.mem_cons_of_mem k (List.mem_map_of_mem member)) k List.mem_cons_self
  rw [Bool.eq_iff_iff, decide_eq_true_iff]
  exact Store.equalIffHashKey (keyed f member) hashed other

theorem firstsFiled (apart : st.Unclashing (fs.map (·.2.key))) :
    (st.firstPairs fs).map Prod.fst = (Dict.empty.putAll fs).keys := by
  rw [Dict.keysPutAll]
  apply eraseDupsFirsts
  intro f member g member'
  have other := apart f.2.key (List.mem_map_of_mem member) g.2.key (List.mem_map_of_mem member')
  exact Store.equalIffHashKey (keyed f member) (keyed g member') other

theorem attributeFiled {u k : Value} (held : st.object? u = some (.hash (.putAll .empty fs)))
    (hashable : (st.tag k).isHashable = true) (apart : st.Unclashing (k :: fs.map (·.2.key))) :
    st.attributeReply u k = .ok (.old (((st.lastPair? fs k).map Entry.value).getD .null)) := by
  obtain ⟨h, hashed⟩ := Store.hashableKey.1 hashable
  rw [lastFiled keyed hashed apart]
  simp only [Store.attributeReply, held, hashed]

theorem entriesFiled (apart : st.Unclashing (fs.map (·.2.key))) :
    (Dict.empty.putAll fs).values.map some = (st.firstPairs fs).map fun f => st.lastPair? fs f.2.key := by
  rw [← Dict.getKeys, ← firstsFiled keyed apart, List.map_map]
  apply List.map_congr_left
  intro f member
  have member : f ∈ fs := memEraseDupsBy member
  have inside (v : Value) (within : v ∈ f.2.key :: fs.map (·.2.key)) : v ∈ fs.map (·.2.key) := by
    rcases List.mem_cons.1 within with rfl | within
    · exact List.mem_map_of_mem member
    · exact within
  have apart' : st.Unclashing (f.2.key :: fs.map (·.2.key)) :=
    fun v left w right => apart v (inside v left) w (inside w right)
  show (Dict.empty.putAll fs).get? f.1 = st.lastPair? fs f.2.key
  rw [lastFiled keyed (keyed f member) apart']

end

section
variable {limits : Limits} {id : ScopeId} {w : World} (live : w.Live (fun _ => True) (some id))
include live

theorem evalLive {t : Tree} {v : Value} {st : Store}
    (ended : (limits.eval id t).run.run w.store = (.ok (some v), st)) :
    ∃ w' : World, w'.store = st ∧ w'.Live (fun _ => True) (some id) ∧ w.Before w' ∧ w'.Ordinary v := by
  obtain ⟨w', last, trace, fine⟩ :=
    followsWithin everyTree limits.rounds limits.depth id .missing t w live trivial
  have outcome := evalOutcome ended
  have later := trace.later live.sound
  exact ⟨w', last.trans (congrArg Outcome.store outcome), live.later later (trace.sound live.sound),
    later.before, fine _ (congrArg Outcome.result outcome) v rfl⟩

theorem Evaluated.filed {pairs : List (Tree × Tree)} {fs : List (HashKey × Entry)} {last : Store}
    (evaluated : Evaluated limits.eval id w.store pairs fs last) :
    ∃ w' : World, w'.store = last ∧ w.Before w' ∧ ∀ f ∈ fs, w'.Filed f.1 f.2.key := by
  generalize start : w.store = st at evaluated
  induction evaluated generalizing w with
  | none => exact ⟨w, start, .refl w, List.forall_mem_nil _⟩
  | @pair st st₁ st₂ st₃ last k t key value h shown ps fs keyed hashable valued filed copied rest ih =>
    subst start
    obtain ⟨w₁, rfl, live₁, before₁, fine⟩ := evalLive live keyed
    obtain ⟨w₂, rfl, live₂, before₂, _⟩ := evalLive live₁ valued
    have allowed : w₂.Admissible (fun _ => True) (some id) .missing (.copy key) := fine.later before₂
    have later := World.actLater live₂.sound allowed
    have live₃ := live₂.later later (World.actSound live₂.sound allowed)
    obtain ⟨w', end', before, others⟩ := ih live₃ (congrArg Prod.snd copied)
    have same : (w₂.store.copy key).1 = shown := congrArg Prod.fst copied
    have first : (w₂.after (.copy key)).Filed h shown := by
      rw [← same]
      exact copyFiled ((copyHash w₂.store key).trans filed)
    exact ⟨w', end', ((before₁.trans before₂).trans later.before).trans before,
      List.forall_mem_cons.2 ⟨first.later before, others⟩⟩

end

/-- A hash literal is an association by equality. Hash keys agree just where the keys are equal, or are
two strings with one digest. If the pairs of a literal can be evaluated, there is a hash of them. As long as
its keys are what they were and no two strings clash, look-up by a key gives the value of the last pair with
an equal key, or null. The entries are one for each class of equal keys, in the order of their first pairs,
and each is the last pair of its class. What a program does changes none of the keys: they are copies. -/
theorem lastPairWins :
    (∀ (st : Store) (v w : Value) (h h' : HashKey), st.hashKey? v = some h → st.hashKey? w = some h' →
      (h = h' ↔ st.equal v w = true ∨ st.Clash v w)) ∧
    (∀ (ev : Evaluator Eval) (rounds depth : Nat) (id : ScopeId) (st : Store) (pairs : List (Tree × Tree))
      (fs : List (HashKey × Entry)) (last : Store) (line : Nat), Evaluated ev id st pairs fs last →
        ∃ v d st', (Eval.step ev rounds depth id (.hash pairs line)).run.run st = (.ok (some v), st') ∧
          last.Grows st' ∧ st'.object? v = some (.hash d) ∧
          ∀ now : Store, now.Keyed fs →
            (∀ u k, now.object? u = some (.hash d) → (now.tag k).isHashable = true →
              now.Unclashing (k :: fs.map (·.2.key)) →
                now.Looks u k (((now.lastPair? fs k).map Entry.value).getD .null)) ∧
            (now.Unclashing (fs.map (·.2.key)) →
              d.values.map some = (now.firstPairs fs).map fun f => now.lastPair? fs f.2.key)) ∧
    ∀ (s : Session), s.Reachable (fun _ => True) → ∀ (limits : Limits) (id : ScopeId),
      id < s.store.scopes.size → ∀ (pairs : List (Tree × Tree)) (fs : List (HashKey × Entry)) (last : Store),
        Evaluated limits.eval id s.store pairs fs last → last.Keyed fs := by
  refine ⟨?_, ?_, ?_⟩
  · intro st v w h h' left right
    exact Store.sameHashKey left right
  · intro ev rounds depth id st pairs fs last line evaluated
    have ran : (Eval.step ev rounds depth id (.hash pairs line)).run.run st =
        (.ok (some (last.alloc (.hash (.putAll .empty fs))).1), (last.alloc (.hash (.putAll .empty fs))).2) := by
      simp only [Eval.step]
      rw [Mimics.runBind, evaluated.entries]
      rfl
    have made := last.objectAlloc (.hash (.putAll .empty fs))
    have grows := last.growsAlloc (.hash (.putAll .empty fs))
    refine ⟨_, _, _, ran, grows, made, ?_⟩
    intro now keyed
    constructor
    · intro u k held hashable apart
      exact looksOf (attributeFiled keyed held hashable apart)
    · intro apart
      exact entriesFiled keyed apart
  · intro s h limits id there pairs fs last evaluated
    obtain ⟨w, shows⟩ := Session.reachableShows everyTree h
    rw [← shows.store] at there evaluated
    have live : w.Live (fun _ => True) (some id) :=
      ⟨shows.live.sound.mono fun _ _ => trivial, fun j same => Option.some.inj same ▸ there⟩
    obtain ⟨w', rfl, _, filed⟩ := evaluated.filed live
    exact fun f member => (filed f member).1

/- `{1: 1, true: 2, "1": 3, 1: 4}` -/
def mixedPairs : List (Tree × Tree) :=
  [(.number 1 1, .number 1 1), (.boolean true 1, .number 2 1), (.string "1" 1, .number 3 1),
    (.number 1 1, .number 4 1)]

def mixedFiled : List (HashKey × Entry) :=
  [(⟨.integer, 1⟩, ⟨.ref 2, .ref 1⟩), (⟨.boolean, 1⟩, ⟨.boolean true, .ref 3⟩),
    (⟨.string, Text.Fnv.digest "1"⟩, ⟨.ref 6, .ref 5⟩), (⟨.integer, 1⟩, ⟨.ref 9, .ref 8⟩)]

def mixedStore (n : Nat) : Store :=
  let objects := [.integer 1, .integer 1, .integer 1, .integer 2, .string "1", .integer 3, .string "1",
    .integer 1, .integer 4, .integer 1, .hash (.putAll .empty mixedFiled)]
  { Session.new.store with objects := (objects.take n).toArray }

theorem mixedEvaluated :
    Evaluated Limits.standard.eval 0 (mixedStore 0) mixedPairs mixedFiled (mixedStore 10) := by
  have last := @Evaluated.pair Limits.standard.eval 0 (mixedStore 7) (mixedStore 8) (mixedStore 9) (mixedStore 10)
    _ (.number 1 1) (.number 4 1) (.ref 7) (.ref 8) _ _ _ _ rfl rfl rfl rfl rfl .none
  have third := @Evaluated.pair Limits.standard.eval 0 (mixedStore 4) (mixedStore 5) (mixedStore 6) (mixedStore 7)
    _ (.string "1" 1) (.number 3 1) (.ref 4) (.ref 5) _ _ _ _ rfl rfl rfl rfl rfl last
  have second := @Evaluated.pair Limits.standard.eval 0 (mixedStore 3) (mixedStore 3) (mixedStore 4) (mixedStore 4)
    _ (.boolean true 1) (.number 2 1) (.boolean true) (.ref 3) _ _ _ _ rfl rfl rfl rfl rfl third
  exact .pair rfl rfl rfl rfl rfl second

theorem mixedUnclashing : (mixedStore 11).Unclashing (.ref 0 :: mixedFiled.map (·.2.key)) := by
  have texts (v : Value) (key : v ∈ .ref 0 :: mixedFiled.map (·.2.key)) (s : String)
      (found : (mixedStore 11).object? v = some (.string s)) : s = "1" := by
    simp only [mixedFiled, List.map_cons, List.map_nil, List.mem_cons, List.not_mem_nil, or_false] at key
    rcases key with rfl | rfl | rfl | rfl | rfl
    all_goals cases found
    rfl
  intro v left w right ⟨s, t, here, there, differ, _⟩
  exact differ ((texts v left s here).trans (texts w right t there).symm)

theorem lastPairWinsMixed : (mixedStore 11).Looks (.ref 10) (.ref 0) (.ref 8) := by
  obtain ⟨v, d, st', ran, grows, held, laws⟩ := lastPairWins.2.1 _ 0 0 0 _ _ _ _ 1 mixedEvaluated
  have whole : (Except.ok (some (.ref 10)), mixedStore 11) = (Except.ok (some v), st') := ran
  have reached : Session.new.Reachable fun _ => True := ⟨.standard, .refl⟩
  have keyed := lastPairWins.2.2 _ reached _ _ Nat.zero_lt_one _ _ _ mixedEvaluated
  cases whole
  exact (laws (mixedStore 11) (keyed.grows grows)).1 (.ref 10) (.ref 0) held rfl mixedUnclashing

end Baby
