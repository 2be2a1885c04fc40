import Baby.Proofs.Trace

/-! Places in the log of a trace. -/
namespace Baby

/-! Cutting lists -/

section
variable {α : Type} {l l' front back : List α} {e x y : α}

theorem splitAppend (h : l ++ l' = front ++ e :: back) :
    (∃ rest, l = front ++ e :: rest ∧ back = rest ++ l') ∨
      ∃ start, front = l ++ start ∧ l' = start ++ e :: back := by
  rcases List.append_eq_append_iff.1 h with ⟨start, first, second⟩ | ⟨rest, first, second⟩
  · exact .inr ⟨start, first, second⟩
  · cases rest with
    | nil => exact .inr ⟨[], by simpa using first.symm, second.symm⟩
    | cons e' rest =>
      obtain ⟨rfl, rfl⟩ := List.cons.inj second
      exact .inl ⟨rest, first, rfl⟩

theorem splitCons (h : x :: l = front ++ e :: back) :
    (front = [] ∧ e = x ∧ back = l) ∨ ∃ start, front = x :: start ∧ l = start ++ e :: back := by
  cases front with
  | nil =>
    obtain ⟨rfl, rfl⟩ := List.cons.inj h
    exact .inl ⟨rfl, rfl, rfl⟩
  | cons x' start =>
    obtain ⟨rfl, rfl⟩ := List.cons.inj h
    exact .inr ⟨start, rfl, rfl⟩

theorem splitLast (h : l ++ [y] = front ++ e :: back) :
    (∃ rest, l = front ++ e :: rest ∧ back = rest ++ [y]) ∨ (front = l ∧ e = y ∧ back = []) := by
  rcases splitAppend h with inside | ⟨start, rfl, last⟩
  · exact .inl inside
  · rcases splitCons last with ⟨rfl, rfl, rfl⟩ | ⟨start', rfl, none⟩
    · exact .inr ⟨by simp, rfl, rfl⟩
    · exact absurd none (by simp)

theorem splitAround (h : x :: l ++ [y] = front ++ e :: back) :
    e = x ∨ (∃ start rest, l = start ++ e :: rest ∧ front = x :: start ∧ back = rest ++ [y]) ∨
      (e = y ∧ back = []) := by
  rcases splitLast h with ⟨rest, same, last⟩ | ⟨_, same, none⟩
  · rcases splitCons same with ⟨_, first, _⟩ | ⟨start, first, inside⟩
    · exact .inl first
    · exact .inr (.inl ⟨start, rest, inside, first, last⟩)
  · exact .inr (.inr ⟨same, none⟩)

theorem memAround (h : e ∈ x :: l ++ [y]) : e = x ∨ e ∈ l ∨ e = y := by
  rcases List.mem_append.1 h with first | last
  · exact (List.mem_cons.1 first).imp_right .inl
  · exact .inr (.inr (List.mem_singleton.1 last))

end

/-! Events of a trace -/

def Event.scope? : Event → Option ScopeId
  | .entered id .. | .left id .. | .called id _ | .answered id .. => some id
  | .did .. => none

namespace Trace
variable {P : Tree → Prop} {id : Option ScopeId} {t : Tree} {w w' : World} {l : List Event}
  {stop : Option Stop}

theorem enteredKnown (h : Trace P id t w l w' stop) {j : ScopeId} {u : Tree} {st : Store}
    (member : .entered j u st ∈ l) : P u := by
  induction h with
  | none | cut | act | fail | leave => simp at member
  | seq _ _ ih ih' => exact (List.mem_append.1 member).elim ih ih'
  | node known _ _ ih =>
    rcases memAround member with same | inside | same
    · cases same
      exact known
    · exact ih inside
    · cases same
  | call _ _ _ _ ih | program _ _ _ ih =>
    refine ih ?_
    simpa using member

theorem boundBy (h : Trace P id t w l w' stop) {front back : List Event} {j : ScopeId} {name : String}
    {v : Value} {st : Store} (place : l = front ++ .did (.bind j name v) st :: back) :
    (id = some j ∧ t.Rebinds name) ∨ ∃ u st', .entered j u st' ∈ front ∧ u.Rebinds name := by
  induction h generalizing front back with
  | none | cut => simp at place
  | seq _ _ ih ih' =>
    rcases splitAppend place with ⟨rest, same, _⟩ | ⟨start, rfl, same⟩
    · exact ih same
    · rcases ih' same with here | ⟨u, st', member, binds⟩
      · exact .inl here
      · exact .inr ⟨u, st', List.mem_append_right _ member, binds⟩
  | act fine _ =>
    rcases splitCons place with ⟨rfl, same, _⟩ | ⟨start, _, none⟩
    · cases same
      exact .inl ⟨fine.1, fine.2.1⟩
    · simp at none
  | fail | leave =>
    rcases splitCons place with ⟨_, same, _⟩ | ⟨start, _, none⟩
    · cases same
    · simp at none
  | node _ _ _ ih =>
    rcases splitAround place with same | ⟨start, rest, inside, rfl, _⟩ | ⟨same, _⟩
    · cases same
    · rcases ih inside with ⟨here, binds⟩ | ⟨u, st', member, binds⟩
      · cases here
        exact .inr ⟨_, _, List.mem_cons_self, binds⟩
      · exact .inr ⟨u, st', List.mem_cons_of_mem _ member, binds⟩
    · cases same
  | call _ _ _ _ ih =>
    rcases splitAround place with same | ⟨start, rest, inside, rfl, _⟩ | ⟨same, _⟩
    · cases same
    · rcases splitCons inside with ⟨_, same, _⟩ | ⟨start', rfl, inside'⟩
      · cases same
      · rcases ih inside' with ⟨_, binds⟩ | ⟨u, st', member, binds⟩
        · exact binds.elim
        · exact .inr ⟨u, st', List.mem_cons_of_mem _ (List.mem_cons_of_mem _ member), binds⟩
    · cases same
  | program _ _ _ ih =>
    rcases splitAround place with same | ⟨start, rest, inside, rfl, _⟩ | ⟨same, _⟩
    · cases same
    · rcases ih inside with here | ⟨u, st', member, binds⟩
      · exact .inl here
      · exact .inr ⟨u, st', List.mem_cons_of_mem _ member, binds⟩
    · cases same

/- Events are in the scope of the trace, or in one that was opened along it. -/
theorem scopes (h : Trace P id t w l w' stop) (sound : w.Sound P) {e : Event} (member : e ∈ l)
    {j : ScopeId} (at' : e.scope? = some j) :
    id = some j ∨ w.store.scopes.size ≤ j ∧ j < w'.store.scopes.size := by
  induction h with
  | none | cut => simp at member
  | act | fail | leave =>
    rw [List.mem_singleton] at member
    subst member
    cases at'
  | seq first second ih ih' =>
    have sound₁ := first.sound sound
    rcases List.mem_append.1 member with member | member
    · refine (ih sound member).imp_right fun ⟨low, high⟩ => ⟨low, ?_⟩
      exact Nat.lt_of_lt_of_le high (second.later sound₁).scopesSize
    · refine (ih' sound₁ member).imp_right fun ⟨low, high⟩ => ⟨?_, high⟩
      exact Nat.le_trans (first.later sound).scopesSize low
  | node _ _ _ ih | program _ _ _ ih =>
    rcases memAround member with rfl | inside | rfl
    · exact .inl at'
    · exact ih sound inside
    · exact .inl at'
  | @call id t w w₁ w' home params args l r fine start inner _ ih =>
    subst start
    have sound₁ := World.actSound sound fine
    have size : (w.after (.enter home params args)).store.scopes.size = w.store.scopes.size + 1 :=
      World.enterSize w.store home params args
    have grown := (inner.later sound₁).scopesSize
    have own : w.store.scopes.size < w'.store.scopes.size := by omega
    refine .inr ?_
    rcases memAround member with rfl | inside | rfl
    · cases at'
    · rcases List.mem_cons.1 inside with rfl | inside
      · cases at'
        exact ⟨Nat.le_refl _, own⟩
      · rcases ih sound₁ inside with here | ⟨low, high⟩
        · cases here
          exact ⟨Nat.le_refl _, own⟩
        · exact ⟨by omega, high⟩
    · cases at'
      exact ⟨Nat.le_refl _, own⟩

end Trace
end Baby
