import Mathlib.Data.Int.ModEq
import Baby.Proofs.Mimicry

/-! Integer arithmetic is that of the integers modulo two to the 64: a calculation wraps at every step,
and this comes to the same as wrapping its exact value once. Only a division can fail, and of the
divisions that would, the first in the order of evaluation does. -/
namespace Baby

structure Wraps (n m : Int) : Prop where
  low : -(Nat.pow 2 63 : Nat) ≤ m
  high : m < (Nat.pow 2 63 : Nat)
  congruent : m ≡ n [ZMOD (Nat.pow 2 64 : Nat)]

def wrapped (n : Int) : Int := n.bmod (Nat.pow 2 64)

theorem wrapsWrapped (n : Int) : Wraps n (wrapped n) where
  low := Int.le_bmod (by decide)
  high := Int.bmod_lt (by decide)
  congruent := Int.bmod_emod

theorem Wraps.eq {n m : Int} (h : Wraps n m) : m = wrapped n := by
  obtain ⟨low, high, congruent⟩ := h
  have same : wrapped n = m.bmod (Nat.pow 2 64) := by
    unfold wrapped
    rw [← Int.emod_bmod, ← congruent, Int.emod_bmod]
  rw [same]
  exact (Int.bmod_eq_of_le low high).symm

theorem wrapsUnique (n : Int) : ∃! m, Wraps n m :=
  ⟨wrapped n, wrapsWrapped n, fun _ other => other.eq⟩

/-! Wrapping -/

theorem complementMask (n k : Nat) :
    (n &&& (Nat.pow 2 k - 1)) ^^^ (Nat.pow 2 k - 1) = Nat.pow 2 k - (n % Nat.pow 2 k + 1) := by
  show (n &&& (2 ^ k - 1)) ^^^ (2 ^ k - 1) = 2 ^ k - (n % 2 ^ k + 1)
  have small : n % 2 ^ k < 2 ^ k := Nat.mod_lt _ (Nat.two_pow_pos k)
  apply Nat.eq_of_testBit_eq
  intro i
  rw [Nat.testBit_two_pow_sub_succ small, Nat.testBit_xor, Nat.testBit_and, Nat.testBit_two_pow_sub_one,
    Nat.testBit_mod_two_pow]
  cases decide (i < k) <;> cases n.testBit i <;> rfl

theorem maskedRemainder (n : Int) : (masked mask64 n : Int) = n % (Nat.pow 2 64 : Nat) := by
  cases n with
  | ofNat n =>
    have low : n &&& mask64 = n % Nat.pow 2 64 := Nat.and_two_pow_sub_one_eq_mod n 64
    rw [masked, low]
    rfl
  | negSucc n =>
    have low : (n &&& mask64) ^^^ mask64 = Nat.pow 2 64 - (n % Nat.pow 2 64 + 1) := complementMask n 64
    rw [masked, low, Int.negSucc_eq]
    have word : (Nat.pow 2 64 : Nat) = 18446744073709551616 := rfl
    rw [word]
    omega

theorem wrapWrapped (n : Int) : wrap n = wrapped n := by
  have low := maskedRemainder n
  have word : (Nat.pow 2 64 : Nat) = 18446744073709551616 := rfl
  have sign : masked mask64 n >>> 63 = masked mask64 n / 9223372036854775808 := Nat.shiftRight_eq_div_pow _ 63
  have whole : (1 <<< 64 : Nat) = 18446744073709551616 := rfl
  unfold wrap wrapped
  dsimp only
  rw [sign, whole, Int.bmod_def, ← low, word]
  split <;> split <;> omega

theorem wrapsWrap (n : Int) : Wraps n (wrap n) := wrapWrapped n ▸ wrapsWrapped n

theorem wrapWord (n : Int) : (Int64.ofInt n).toInt = wrap n := by
  rw [Int64.toInt_ofInt, wrapWrapped]
  rfl

theorem numberInteger (n : Int) : Object.number n = .integer (Int64.ofInt n) := by
  have fits : Wraps (wrap n) (wrap n) := ⟨(wrapsWrap n).low, (wrapsWrap n).high, Int.ModEq.refl _⟩
  have stored : (Int64.ofInt (wrap n)).toInt = (Int64.ofInt n).toInt := by
    rw [wrapWord, wrapWord, wrapWrapped, ← fits.eq]
  rw [Object.number, Int64.toInt_inj.1 stored]

theorem wrapsLiteral {n m : Int} (congruent : m ≡ n [ZMOD (Nat.pow 2 64 : Nat)]) :
    Wraps n (Int64.ofInt m).toInt := by
  rw [wrapWord]
  obtain ⟨low, high, same⟩ := wrapsWrap m
  exact ⟨low, high, same.trans congruent⟩

/-! Quotients -/

/- The quotient of two integers, rounded towards zero: times the divisor it goes no further than the
dividend, and falls short of it by less than the divisor. -/
structure Truncates (a b q : Int) : Prop where
  within : (q * b).natAbs ≤ a.natAbs
  closest : (a - q * b).natAbs < b.natAbs

theorem truncatedQuotientEq (a b : Int) : truncatedQuotient a b = a.tdiv b := by
  unfold truncatedQuotient
  cases a with
  | ofNat m =>
    have up : decide (Int.ofNat m < 0) = false := by simp
    cases b with
    | ofNat n =>
      have up' : decide (Int.ofNat n < 0) = false := by simp
      rw [up, up', if_pos rfl]
      rfl
    | negSucc n =>
      have down : decide (Int.negSucc n < 0) = true := by simp
      rw [up, down, if_neg (by simp)]
      rfl
  | negSucc m =>
    have down : decide (Int.negSucc m < 0) = true := by simp
    cases b with
    | ofNat n =>
      have up : decide (Int.ofNat n < 0) = false := by simp
      rw [down, up, if_neg (by simp)]
      rfl
    | negSucc n =>
      have down' : decide (Int.negSucc n < 0) = true := by simp
      rw [down, down', if_pos rfl]
      rfl

theorem truncatesQuotient (a : Int) {b : Int} (nonzero : b ≠ 0) : Truncates a b (a.tdiv b) where
  within := by
    rw [Int.natAbs_mul, Int.natAbs_tdiv]
    exact Nat.div_mul_le_self _ _
  closest := by
    have rest : a - a.tdiv b * b = a.tmod b := by
      rw [Int.mul_comm, Int.tmod_def]
    rw [rest, Int.natAbs_tmod]
    exact Nat.mod_lt _ (Int.natAbs_pos.2 nonzero)

theorem Truncates.eq {a b q : Int} (h : Truncates a b q) (nonzero : b ≠ 0) : q = a.tdiv b := by
  obtain ⟨within, closest⟩ := h
  have whole : a - q * b + b * q = a := by
    rw [Int.mul_comm b, Int.sub_add_cancel]
  rcases Int.le_total 0 a with up | down
  · have unique := (Int.tdiv_tmod_unique (q := q) (r := a - q * b) up nonzero).2
    exact (unique ⟨whole, by omega, by omega⟩).1.symm
  · have unique := (Int.tdiv_tmod_unique' (q := q) (r := a - q * b) down nonzero).2
    exact (unique ⟨whole, by omega, by omega⟩).1.symm

theorem truncatesUnique (a : Int) {b : Int} (nonzero : b ≠ 0) : ∃! q, Truncates a b q :=
  ⟨a.tdiv b, truncatesQuotient a nonzero, fun _ other => other.eq nonzero⟩

theorem quotientOverflows (a : Int64) {b m : Int} (nonzero : b ≠ 0) (wraps : Wraps (a.toInt.tdiv b) m) :
    m ≠ a.toInt.tdiv b ↔ a.toInt = -(Nat.pow 2 63 : Nat) ∧ b = -1 := by
  have word : ((Nat.pow 2 63 : Nat) : Int) = 2 ^ 63 := rfl
  have low := a.le_toInt
  have high := a.toInt_lt
  constructor
  · intro differs
    have smaller := Int.natAbs_tdiv_le_natAbs a.toInt b
    have outside : a.toInt.tdiv b = (Nat.pow 2 63 : Nat) := by
      by_contra inside
      have self : Wraps (a.toInt.tdiv b) (a.toInt.tdiv b) :=
        ⟨by omega, by omega, Int.ModEq.refl _⟩
      exact differs (wraps.eq.trans self.eq.symm)
    have least : a.toInt = -(Nat.pow 2 63 : Nat) := by omega
    have within := (truncatesQuotient a.toInt nonzero).within
    rw [outside, least, Int.natAbs_mul, Int.natAbs_neg] at within
    have unit : b.natAbs ≤ 1 :=
      Nat.le_of_mul_le_mul_left (within.trans_eq (Nat.mul_one _).symm) (Int.natAbs_pos.2 (by omega))
    have signed : b ≠ 1 := by
      intro one
      rw [one, Int.tdiv_one] at outside
      omega
    exact ⟨least, by omega⟩
  · intro ⟨least, minus⟩ same
    have bound := wraps.high
    rw [same, least, minus, Int.tdiv_neg, Int.tdiv_one, Int.neg_neg] at bound
    exact Int.lt_irrefl _ bound

/-! Calculations -/

inductive Operation where
  | sum
  | difference
  | product
  | quotient
  deriving DecidableEq, Repr

structure Division where
  dividend : Int
  divisor : Int
  deriving DecidableEq, Repr

namespace Operation

def sign : Operation → Op
  | sum => .add
  | difference => .sub
  | product => .mul
  | quotient => .div

def exact : Operation → Int → Int → Int
  | sum, x, y => x + y
  | difference, x, y => x - y
  | product, x, y => x * y
  | quotient, x, y => (wrapped x).tdiv (wrapped y)

def divisions : Operation → Int → Int → List Division
  | quotient, x, y => [⟨wrapped x, wrapped y⟩]
  | _, _, _ => []

end Operation

inductive Calculation where
  | literal (value : Int) (line : Nat)
  | negation (operand : Calculation) (line : Nat)
  | operation (op : Operation) (left right : Calculation) (line : Nat)
  deriving DecidableEq, Repr

namespace Calculation

def tree : Calculation → Tree
  | literal n line => .number n line
  | negation e line => .unary .sub e.tree line
  | operation op left right line => .binary op.sign left.tree right.tree line

def height : Calculation → Nat
  | literal _ _ => 1
  | negation e _ => e.height + 1
  | operation _ left right _ => max left.height right.height + 1

def value : Calculation → Int
  | literal n _ => n
  | negation e _ => -e.value
  | operation op left right _ => op.exact left.value right.value

/- In the order of evaluation: those of the right operand, those of the left, and the one itself. -/
def divisions : Calculation → List Division
  | literal _ _ => []
  | negation e _ => e.divisions
  | operation op left right _ =>
      right.divisions ++ left.divisions ++ op.divisions left.value right.value

end Calculation

namespace Operation

variable {a b : Int64} {x y : Int}

theorem replyQuotient (nonzero : b.toInt ≠ 0) :
    integerReply .div a b = .ok (.fresh (.integer (Int64.ofInt (a.toInt.tdiv b.toInt)))) := by
  simp only [integerReply, if_neg nonzero, Reply.number, numberInteger, truncatedQuotientEq]

theorem replyInteger (op : Operation) (left : Wraps x a.toInt) (right : Wraps y b.toInt)
    (fine : ∀ d ∈ op.divisions x y, d.divisor ≠ 0) :
    ∃ n, integerReply op.sign a b = .ok (.fresh (.integer n)) ∧ Wraps (op.exact x y) n.toInt := by
  have number (m : Int) : Reply.number m = .ok (.fresh (.integer (Int64.ofInt m))) := by
    rw [Reply.number, numberInteger]
  cases op with
  | sum => exact ⟨_, number _, wrapsLiteral (left.congruent.add right.congruent)⟩
  | difference => exact ⟨_, number _, wrapsLiteral (left.congruent.sub right.congruent)⟩
  | product => exact ⟨_, number _, wrapsLiteral (left.congruent.mul right.congruent)⟩
  | quotient =>
    have nonzero : b.toInt ≠ 0 := by
      rw [right.eq]
      exact fine _ (List.mem_singleton_self _)
    refine ⟨_, replyQuotient nonzero, ?_⟩
    rw [left.eq, right.eq]
    exact wrapsLiteral (Int.ModEq.refl _)

theorem replyFault (op : Operation) (left : Wraps x a.toInt) (right : Wraps y b.toInt) {d : Division}
    (member : d ∈ op.divisions x y) (zero : d.divisor = 0) :
    integerReply op.sign a b = .error (.divisionByZero a) ∧ op.divisions x y = [⟨a.toInt, 0⟩] := by
  cases op with
  | quotient =>
    have found : d = ⟨wrapped x, wrapped y⟩ := List.mem_singleton.1 member
    have nothing : b.toInt = 0 := by
      rw [right.eq, ← zero, found]
    constructor
    · simp only [sign, integerReply, if_pos nothing]
    · rw [← nothing, left.eq, right.eq]
      rfl
  | _ => exact absurd member List.not_mem_nil

end Operation

/-! Evaluation -/

structure Store.Grows (st st' : Store) : Prop where
  kept : ∀ v o, st.object? v = some o → st'.object? v = some o
  scopes : st'.scopes = st.scopes
  printed : st'.printed = st.printed

theorem Store.Grows.refl (st : Store) : st.Grows st := ⟨fun _ _ held => held, rfl, rfl⟩

theorem Store.Grows.trans {st st' st'' : Store} (h : st.Grows st') (k : st'.Grows st'') : st.Grows st'' where
  kept v o held := k.kept v o (h.kept v o held)
  scopes := k.scopes.trans h.scopes
  printed := k.printed.trans h.printed

theorem Store.growsAlloc (st : Store) (o : Object) : st.Grows (st.alloc o).2 where
  kept v o' held := by
    cases v with
    | ref a => exact (st.objectAllocOld o (Array.getElem?_eq_some_iff.1 held).1).trans held
    | _ => cases held
  scopes := rfl
  printed := rfl

namespace Eval

variable {rounds depth : Nat} {id : ScopeId} {t : Tree} {st st₁ : Store}

theorem settleInteger {v : Value} {n : Int64} (held : st.object? v = some (.integer n)) :
    (settle v : Eval _).run.run st = (.ok v, st) := by
  have looked : (Machine.look : Eval Store).run.run st = (.ok st, st) := rfl
  unfold settle
  rw [Mimics.runBind, looked]
  simp only [held]
  cases v <;> rfl

theorem withinStop {stop : Stop}
    (ran : (step (within rounds depth) rounds depth id t : Eval _).run.run st = (.error stop, st₁)) :
    (within rounds (depth + 1) id t : Eval _).run.run st = (.error stop, st₁) := by
  show (step (within rounds depth) rounds depth id t >>= _ : Eval _).run.run st = _
  rw [Mimics.runBind, ran]

theorem withinInteger {n : Int64}
    (ran : (step (within rounds depth) rounds depth id t : Eval _).run.run st =
      (some <$> deliver (.ok (.fresh (.integer n))) : Eval _).run.run st₁) :
    (within rounds (depth + 1) id t : Eval _).run.run st =
      (.ok (some (st₁.alloc (.integer n)).1), (st₁.alloc (.integer n)).2) := by
  have made : (some <$> deliver (.ok (.fresh (.integer n))) : Eval _).run.run st₁ =
      (.ok (some (st₁.alloc (.integer n)).1), (st₁.alloc (.integer n)).2) := rfl
  show (step (within rounds depth) rounds depth id t >>= _ : Eval _).run.run st = _
  rw [Mimics.runBind, ran, made]
  simp only [map_eq_pure_bind]
  rw [Mimics.runBind, settleInteger (st₁.objectAlloc _)]
  rfl

variable {ev : Evaluator Eval} {line : Nat} {op : Op} {e left right : Tree} {v w : Value} {stop : Stop}
  {st₂ : Store}

theorem operandRun {r : Except Stop (Option Value)} (ran : (ev id t).run.run st = (r, st₁)) :
    (operand ev id t).run.run st = (r.map (·.getD .null), st₁) := by
  unfold operand
  rw [Mimics.runBind, ran]
  cases r <;> rfl

theorem unaryStop (ran : (ev id e).run.run st = (.error stop, st₁)) :
    (step ev rounds depth id (.unary op e line)).run.run st = (.error stop, st₁) := by
  simp only [step]
  rw [Mimics.runBind, operandRun ran]
  rfl

theorem unaryAnswer {reply : Reply} (ran : (ev id e).run.run st = (.ok (some v), st₁))
    (answered : st₁.unaryReply op v = reply) :
    (step ev rounds depth id (.unary op e line)).run.run st = (some <$> deliver reply : Eval _).run.run st₁ := by
  simp only [step]
  rw [Mimics.runBind, operandRun ran, ← answered]
  rfl

theorem binaryStopRight (ran : (ev id right).run.run st = (.error stop, st₁)) :
    (step ev rounds depth id (.binary op left right line)).run.run st = (.error stop, st₁) := by
  simp only [step]
  rw [Mimics.runBind, operandRun ran]
  rfl

theorem binaryStopLeft (first : (ev id right).run.run st = (.ok (some w), st₁))
    (second : (ev id left).run.run st₁ = (.error stop, st₂)) :
    (step ev rounds depth id (.binary op left right line)).run.run st = (.error stop, st₂) := by
  simp only [step]
  rw [Mimics.runBind, operandRun first]
  show (operand ev id left >>= _ : Eval _).run.run st₁ = _
  rw [Mimics.runBind, operandRun second]
  rfl

theorem binaryAnswer {reply : Reply} (first : (ev id right).run.run st = (.ok (some w), st₁))
    (second : (ev id left).run.run st₁ = (.ok (some v), st₂)) (answered : st₂.binaryReply depth op v w = reply) :
    (step ev rounds depth id (.binary op left right line)).run.run st =
      (some <$> deliver reply : Eval _).run.run st₂ := by
  simp only [step]
  rw [Mimics.runBind, operandRun first]
  show (operand ev id left >>= _ : Eval _).run.run st₁ = _
  rw [Mimics.runBind, operandRun second, ← answered]
  rfl

end Eval

namespace Calculation

inductive Ends (e : Calculation) (depth : Nat) (st : Store) : Except Stop (Option Value) → Prop
  | value (a : Addr) (n : Int64) (fine : ∀ d ∈ e.divisions, d.divisor ≠ 0)
      (held : st.object? (.ref a) = some (.integer n)) (wraps : Wraps e.value n.toInt) :
      Ends e depth st (.ok (some (.ref a)))
  | fault (a : Addr) (n : Int64) (front back : List Division)
      (split : e.divisions = front ++ ⟨n.toInt, 0⟩ :: back) (fine : ∀ d ∈ front, d.divisor ≠ 0)
      (held : st.object? (.ref a) = some (.error (.divisionByZero n))) :
      Ends e depth st (.error (.fault a (.divisionByZero n)))
  | tooDeep (deep : depth < e.height) : Ends e depth st (.error .depth)

variable {e part : Calculation} {depth : Nat} {st : Store}

theorem Ends.whole {stop : Stop} (h : part.Ends depth st (.error stop)) (before after : List Division)
    (split : e.divisions = before ++ part.divisions ++ after) (fine : ∀ d ∈ before, d.divisor ≠ 0)
    (lower : part.height < e.height) : e.Ends (depth + 1) st (.error stop) := by
  cases h with
  | fault a n front back first earlier held =>
    have found : e.divisions = (before ++ front) ++ ⟨n.toInt, 0⟩ :: (back ++ after) := by
      rw [split, first]
      simp only [List.append_assoc, List.cons_append]
    have none : ∀ d ∈ before ++ front, d.divisor ≠ 0 := List.forall_mem_append.2 ⟨fine, earlier⟩
    exact .fault a n _ _ found none held
  | tooDeep deep => exact .tooDeep (by omega)

theorem Ends.integer {r : Option Value} (h : e.Ends depth st (.ok r)) :
    ∃ v n, r = some v ∧ st.object? v = some (.integer n) ∧ Wraps e.value n.toInt ∧
      ∀ d ∈ e.divisions, d.divisor ≠ 0 := by
  cases h with
  | value a n fine held wraps => exact ⟨.ref a, n, rfl, held, wraps, fine⟩

theorem Ends.made {n : Int64} (fine : ∀ d ∈ e.divisions, d.divisor ≠ 0) (wraps : Wraps e.value n.toInt) :
    e.Ends depth (st.alloc (.integer n)).2 (.ok (some (st.alloc (.integer n)).1)) :=
  .value _ n fine (st.objectAlloc _) wraps

theorem binarySign (op : Operation) {v w : Value} {a b : Int64} (left : st.object? v = some (.integer a))
    (right : st.object? w = some (.integer b)) (depth : Nat) :
    st.binaryReply depth op.sign v w = integerReply op.sign a b := by
  have operands : st.operandsReply op.sign v w = integerReply op.sign a b := by
    simp only [Store.operandsReply, left, right]
  cases op <;> exact operands

def Ran (e : Calculation) (rounds depth : Nat) : Prop :=
  ∀ (id : ScopeId) (st : Store), ∃ r st',
    (Eval.within rounds depth id e.tree : Eval _).run.run st = (r, st') ∧ st.Grows st' ∧ e.Ends depth st' r

variable {rounds : Nat}

theorem ranShallow (e : Calculation) (rounds : Nat) : e.Ran rounds 0 := by
  intro id st
  have some : 0 < e.height := by cases e <;> exact Nat.zero_lt_succ _
  exact ⟨_, _, rfl, .refl st, .tooDeep some⟩

theorem ranLiteral (n : Int) (line : Nat) : (literal n line).Ran rounds (depth + 1) := by
  intro id st
  have fine : ∀ d ∈ (literal n line).divisions, d.divisor ≠ 0 := List.forall_mem_nil _
  have stored : (some <$> Eval.alloc (.number n) : Eval _).run.run st =
      (some <$> Eval.deliver (.ok (.fresh (.integer (Int64.ofInt n)))) : Eval _).run.run st := by
    rw [numberInteger]
    rfl
  exact ⟨_, _, Eval.withinInteger stored, st.growsAlloc _, .made fine (wrapsLiteral (Int.ModEq.refl n))⟩

theorem ranNegation (line : Nat) (h : e.Ran rounds depth) : (negation e line).Ran rounds (depth + 1) := by
  intro id st
  obtain ⟨r, st₁, run, grows, ends⟩ := h id st
  cases r with
  | error stop =>
    have split : (negation e line).divisions = [] ++ e.divisions ++ [] := (List.append_nil _).symm
    exact ⟨_, _, Eval.withinStop (Eval.unaryStop run), grows,
      ends.whole [] [] split (List.forall_mem_nil _) (Nat.lt_succ_self _)⟩
  | ok r =>
    obtain ⟨v, n, rfl, held, wraps, fine⟩ := ends.integer
    have reply : st₁.unaryReply .sub v = .ok (.fresh (.integer (Int64.ofInt (-n.toInt)))) := by
      simp only [Store.unaryReply, held, Reply.number, numberInteger]
    exact ⟨_, _, Eval.withinInteger (Eval.unaryAnswer run reply), grows.trans (st₁.growsAlloc _),
      .made fine (wrapsLiteral wraps.congruent.neg)⟩

theorem ranOperation (op : Operation) {left right : Calculation} (line : Nat) (first : right.Ran rounds depth)
    (second : left.Ran rounds depth) : (operation op left right line).Ran rounds (depth + 1) := by
  intro id st
  obtain ⟨r, st₁, run, grows, ends⟩ := first id st
  cases r with
  | error stop =>
    have lower : right.height < (operation op left right line).height :=
      Nat.lt_succ_of_le (Nat.le_max_right _ _)
    exact ⟨_, _, Eval.withinStop (Eval.binaryStopRight run), grows,
      ends.whole [] _ (List.append_assoc _ _ _) (List.forall_mem_nil _) lower⟩
  | ok r =>
    obtain ⟨w, b, rfl, heldRight, wrapsRight, fineRight⟩ := ends.integer
    obtain ⟨r, st₂, run', grows', ends'⟩ := second id st₁
    cases r with
    | error stop =>
      have lower : left.height < (operation op left right line).height :=
        Nat.lt_succ_of_le (Nat.le_max_left _ _)
      exact ⟨_, _, Eval.withinStop (Eval.binaryStopLeft run run'), grows.trans grows',
        ends'.whole right.divisions _ rfl fineRight lower⟩
    | ok r =>
      obtain ⟨v, a, rfl, heldLeft, wrapsLeft, fineLeft⟩ := ends'.integer
      have earlier : ∀ d ∈ right.divisions ++ left.divisions, d.divisor ≠ 0 :=
        List.forall_mem_append.2 ⟨fineRight, fineLeft⟩
      have answered := binarySign op heldLeft (grows'.kept w _ heldRight) depth
      by_cases fine : ∀ d ∈ op.divisions left.value right.value, d.divisor ≠ 0
      · obtain ⟨n, reply, wraps⟩ := op.replyInteger wrapsLeft wrapsRight fine
        exact ⟨_, _, Eval.withinInteger (Eval.binaryAnswer run run' (answered.trans reply)),
          (grows.trans grows').trans (st₂.growsAlloc _),
          .made (List.forall_mem_append.2 ⟨earlier, fine⟩) wraps⟩
      · simp only [not_forall, not_not] at fine
        obtain ⟨d, member, zero⟩ := fine
        obtain ⟨reply, only⟩ := op.replyFault wrapsLeft wrapsRight member zero
        have split : (operation op left right line).divisions =
            (right.divisions ++ left.divisions) ++ ⟨a.toInt, 0⟩ :: [] := congrArg _ only
        exact ⟨_, _, Eval.withinStop (Eval.binaryAnswer run run' (answered.trans reply)),
          (grows.trans grows').trans (st₂.growsAlloc _), .fault _ a _ _ split earlier (st₂.objectAlloc _)⟩

theorem ran (e : Calculation) (rounds depth : Nat) : e.Ran rounds depth := by
  induction e generalizing depth with
  | literal n line =>
    cases depth with
    | zero => exact ranShallow _ _
    | succ depth => exact ranLiteral n line
  | negation e line ih =>
    cases depth with
    | zero => exact ranShallow _ _
    | succ depth => exact ranNegation line (ih depth)
  | operation op left right line ihLeft ihRight =>
    cases depth with
    | zero => exact ranShallow _ _
    | succ depth => exact ranOperation op line (ihRight depth) (ihLeft depth)

end Calculation

/-- Arithmetic is exact in 64 bits. A calculation that is not nested too deep gives the one integer of 64
bits that is congruent to its exact value, unless it divides by zero: then the first such division, right
operands before left ones, is the fault. A quotient is rounded towards zero, and only that of the least
integer and minus one has to be wrapped. No integer is ever stored that has more bits. -/
theorem arithmeticWrapsOnce :
    (∀ n, (∃! m, Wraps n m) ∧ Wraps n (wrap n) ∧ (Int64.ofInt n).toInt = wrap n) ∧
    (∀ a b : Int, truncatedQuotient a b = a.tdiv b) ∧
    (∀ (limits : Limits) (id : ScopeId) (st : Store) (e : Calculation), ∃ r st',
      (limits.eval id e.tree).run.run st = (r, st') ∧ st.Grows st' ∧ e.Ends limits.depth st' r) ∧
    (∀ (st : Store) (v w : Value) (a b : Int64), st.object? v = some (.integer a) →
      st.object? w = some (.integer b) → b.toInt ≠ 0 →
        ∃ n, (∀ depth, st.binaryReply depth .div v w = .ok (.fresh (.integer n))) ∧
          (∃! q, Truncates a.toInt b.toInt q) ∧
          ∀ q, Truncates a.toInt b.toInt q →
            Wraps q n.toInt ∧ (n.toInt ≠ q ↔ a.toInt = -(Nat.pow 2 63 : Nat) ∧ b.toInt = -1)) ∧
    ∀ (st : Store) (v : Value) (n : Int64), st.object? v = some (.integer n) →
      -(Nat.pow 2 63 : Nat) ≤ n.toInt ∧ n.toInt < (Nat.pow 2 63 : Nat) := by
  constructor
  · exact fun n => ⟨wrapsUnique n, wrapsWrap n, wrapWord n⟩
  constructor
  · exact truncatedQuotientEq
  constructor
  · intro limits id st e
    exact e.ran limits.rounds limits.depth id st
  constructor
  · intro st v w a b left right nonzero
    have answered (depth : Nat) :=
      (Calculation.binarySign .quotient left right depth).trans (Operation.replyQuotient nonzero)
    have wraps := wrapsLiteral (Int.ModEq.refl (a.toInt.tdiv b.toInt))
    refine ⟨_, answered, truncatesUnique a.toInt nonzero, ?_⟩
    intro q truncates
    rw [truncates.eq nonzero]
    exact ⟨wraps, quotientOverflows a nonzero wraps⟩
  · intro st v n held
    exact ⟨n.le_toInt, n.toInt_lt⟩

def leastByMinusOne : Store := ⟨#[.integer Int64.minValue, .integer (-1)], #[], #[]⟩

theorem arithmeticWrapsOnceLeast :
    ∃ n, leastByMinusOne.binaryReply 0 .div (.ref 0) (.ref 1) = .ok (.fresh (.integer n)) ∧
      n.toInt ≠ Nat.pow 2 63 ∧ Wraps (Nat.pow 2 63) n.toInt := by
  obtain ⟨_, _, _, quotients, _⟩ := arithmeticWrapsOnce
  obtain ⟨n, answered, _, unique⟩ :=
    quotients leastByMinusOne (.ref 0) (.ref 1) Int64.minValue (-1) rfl rfl (by decide)
  obtain ⟨wraps, overflows⟩ := unique (Nat.pow 2 63) ⟨by decide, by decide⟩
  exact ⟨n, answered 0, overflows.2 ⟨rfl, rfl⟩, wraps⟩

end Baby
