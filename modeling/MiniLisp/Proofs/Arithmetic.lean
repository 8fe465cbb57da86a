import MiniLisp.Proofs.Integers
import MiniLisp.Proofs.Operands

/-!
Integer arithmetic against the unbounded integers. A step gives the exact result or is refused
(`Arithmetic.onInts_eq_ok`, `Arithmetic.onInts_eq_error`), so a fold of them gives the exact result of the
whole or stops at the first step that breaks (`VariadicOp.arithmetic_exact`). Division and remainder fail
for the same operands, and where they do not, the dividend is put together again from what they give
(`Division.division_agrees`).
-/

namespace MiniLisp

namespace Arithmetic

/-- The operator on the unbounded integers. A quotient is truncated toward zero. -/
def exact : Arithmetic → Int → Int → Int
  | add, a, b => a + b
  | sub, a, b => a - b
  | mul, a, b => a * b
  | div, a, b => a.tdiv b

/-- The error of a step that is refused for the given operand. -/
def refusal (op : Arithmetic) (n : Int64) : Cause :=
  if op = div ∧ n = 0 then .divisionByZero else .integerOverflow op.symbol

variable {op : Arithmetic} {a n m : Int64} {cause : Cause}

theorem onInts_eq (op : Arithmetic) (a n : Int64) :
    op.onInts a n = if op = div ∧ n = 0 then .error .divisionByZero else
      match Word.ofInt? (op.exact a.toInt n.toInt) with
      | some m => .ok m
      | none => .error (.integerOverflow op.symbol) := by
  cases op with
  | add | sub | mul => rfl
  | div =>
      simp only [onInts, true_and]
      rfl

/-- A step that is not refused gives the exact result. -/
theorem onInts_eq_ok :
    op.onInts a n = .ok m ↔ ¬(op = div ∧ n = 0) ∧ m.toInt = op.exact a.toInt n.toInt := by
  rw [onInts_eq]
  split
  · next zero => simp [zero]
  · next nonzero =>
      rw [← Word.ofInt?_eq_some_iff]
      cases Word.ofInt? (op.exact a.toInt n.toInt) <;> simp [nonzero]

/-- A step is refused if it divides by zero or its exact result is out of range. -/
theorem onInts_eq_error :
    op.onInts a n = .error cause ↔
      ((op = div ∧ n = 0) ∨ ¬Word.InRange (op.exact a.toInt n.toInt)) ∧ cause = op.refusal n := by
  rw [onInts_eq, refusal]
  split
  · next zero => simp [zero, eq_comm]
  · next nonzero =>
      rw [← Word.ofInt?_eq_none_iff]
      cases Word.ofInt? (op.exact a.toInt n.toInt) <;> simp [nonzero, eq_comm]

/-- The exact result after the given number of steps. -/
def running (op : Arithmetic) (first : Int64) (rest : List Int64) (steps : Nat) : Int :=
  (rest.take steps).foldl (fun v n => op.exact v n.toInt) first.toInt

/-- A step breaks where it divides by zero or where the exact result is out of range after it. -/
def Breaks (op : Arithmetic) (first : Int64) (rest : List Int64) (i : Fin rest.length) : Prop :=
  (op = div ∧ rest[i] = 0) ∨ ¬Word.InRange (op.running first rest (i + 1))

variable {first : Int64} {rest : List Int64}

theorem running_succ (h : m.toInt = op.exact first.toInt n.toInt) (steps : Nat) :
    op.running first (n :: rest) (steps + 1) = op.running m rest steps := by
  simp [running, h]

theorem breaks_zero (rest : List Int64) :
    op.Breaks first (n :: rest) 0 ↔
      (op = div ∧ n = 0) ∨ ¬Word.InRange (op.exact first.toInt n.toInt) := by
  simp [Breaks, running]

theorem breaks_succ (h : m.toInt = op.exact first.toInt n.toInt) (i : Fin rest.length) :
    op.Breaks first (n :: rest) i.succ ↔ op.Breaks m rest i := by
  simp [Breaks, running_succ h]

/-- A step that does not break gives a word to go on with. -/
theorem step_cases (op : Arithmetic) (a n : Int64) :
    (∃ m, op.onInts a n = .ok m ∧ m.toInt = op.exact a.toInt n.toInt ∧
      ¬((op = div ∧ n = 0) ∨ ¬Word.InRange (op.exact a.toInt n.toInt))) ∨
    (op.onInts a n = .error (op.refusal n) ∧
      ((op = div ∧ n = 0) ∨ ¬Word.InRange (op.exact a.toInt n.toInt))) := by
  cases outcome : op.onInts a n with
  | ok m =>
      obtain ⟨nonzero, reached⟩ := onInts_eq_ok.1 outcome
      refine .inl ⟨m, rfl, reached, ?_⟩
      rintro (zero | out)
      · exact nonzero zero
      · exact out (reached ▸ Word.inRange_toInt m)
  | error cause =>
      obtain ⟨breaks, rfl⟩ := onInts_eq_error.1 outcome
      exact .inr ⟨rfl, breaks⟩

theorem foldlM_eq_ok {k : Int64} :
    rest.foldlM op.onInts first = .ok k ↔
      (∀ i, ¬op.Breaks first rest i) ∧ k.toInt = op.running first rest rest.length := by
  induction rest generalizing first with
  | nil =>
      simp [running, pure, Except.pure, Int64.toInt_inj, eq_comm]
  | cons n rest ih =>
      have parts : (∀ i, ¬op.Breaks first (n :: rest) i) ↔
          ¬op.Breaks first (n :: rest) 0 ∧ ∀ i, ¬op.Breaks first (n :: rest) (Fin.succ i) :=
        Fin.forall_fin_succ
      rw [List.foldlM_cons, parts, breaks_zero, List.length_cons]
      rcases op.step_cases first n with ⟨m, steps, reached, sound⟩ | ⟨refused, breaks⟩
      · simp only [breaks_succ reached, running_succ reached, sound, not_false_iff, true_and]
        rw [steps, ← ih]
        rfl
      · rw [refused]
        exact ⟨nofun, fun h => absurd breaks h.1.1⟩

/-- The fold stops at the first step that breaks. -/
theorem foldlM_eq_error :
    rest.foldlM op.onInts first = .error cause ↔
      ∃ i, op.Breaks first rest i ∧ (∀ j < i, ¬op.Breaks first rest j) ∧ cause = op.refusal rest[i] := by
  induction rest generalizing first with
  | nil => exact ⟨nofun, fun ⟨i, _⟩ => i.elim0⟩
  | cons n rest ih =>
      rw [List.foldlM_cons]
      rcases op.step_cases first n with ⟨m, steps, reached, sound⟩ | ⟨refused, breaks⟩
      · rw [← breaks_zero rest] at sound
        rw [steps]
        refine ih.trans ⟨?_, ?_⟩
        · rintro ⟨i, broken, least, blamed⟩
          refine ⟨i.succ, (breaks_succ reached i).2 broken, fun j before => ?_, blamed⟩
          cases j using Fin.cases with
          | zero => exact sound
          | succ j => exact mt (breaks_succ reached j).1 (least j (Fin.succ_lt_succ_iff.1 before))
        · rintro ⟨i, broken, least, blamed⟩
          cases i using Fin.cases with
          | zero => exact absurd broken sound
          | succ i =>
              refine ⟨i, (breaks_succ reached i).1 broken, fun j before => ?_, blamed⟩
              exact mt (breaks_succ reached j).2 (least j.succ (Fin.succ_lt_succ_iff.2 before))
      · rw [← breaks_zero rest] at breaks
        rw [refused]
        refine ⟨fun failed => ?_, ?_⟩
        · cases failed
          exact ⟨0, breaks, fun j before => absurd before (Fin.not_lt_zero j), rfl⟩
        · rintro ⟨i, -, least, blamed⟩
          cases i using Fin.cases with
          | zero => rw [blamed]; rfl
          | succ i => exact absurd breaks (least 0 (Fin.succ_pos i))

end Arithmetic

theorem VariadicOp.apply_arithmetic (op : Arithmetic) (first : Number) (rest : List Number) :
    (VariadicOp.arithmetic op).apply ((first :: rest).map .number) =
      (op.apply first rest).map .number :=
  Operand.numbers_then _ first rest _

theorem VariadicOp.apply_ints (op : Arithmetic) (first : Int64) (rest : List Int64) :
    (VariadicOp.arithmetic op).apply ((first :: rest).map .int) =
      (rest.foldlM op.onInts first).map .int := by
  have given : (first :: rest).map Value.int = (.int first :: rest.map .int).map .number := by simp
  rw [given, VariadicOp.apply_arithmetic, op.apply_int]
  cases rest.foldlM op.onInts first <;> rfl

theorem VariadicOp.apply_pair (op : Arithmetic) (a b : Int64) :
    (VariadicOp.arithmetic op).apply [.int a, .int b] = (op.onInts a b).map .int := by
  refine (VariadicOp.apply_ints op a [b]).trans ?_
  rw [List.foldlM_cons]
  cases op.onInts a b <;> rfl

/-- On integers, `+`, `-`, `*` and `/` give the exact result over the unbounded integers if no step
divides by zero or leaves the 64-bit range. Otherwise they fail at the first step that does, with the
error of this step. -/
theorem VariadicOp.arithmetic_exact (op : Arithmetic) (first : Int64) (rest : List Int64) :
    let outcome := (VariadicOp.arithmetic op).apply ((first :: rest).map .int)
    ((∃ v, outcome = .ok v) ↔ ∀ i, ¬op.Breaks first rest i) ∧
    (∀ v, outcome = .ok v → ∃ k : Int64, v = .int k ∧ k.toInt = op.running first rest rest.length) ∧
    ∀ cause, outcome = .error cause ↔
      ∃ i, op.Breaks first rest i ∧ (∀ j < i, ¬op.Breaks first rest j) ∧
        cause = if op = .div ∧ rest[i] = 0 then .divisionByZero
          else .integerOverflow (VariadicOp.arithmetic op).symbol := by
  rw [VariadicOp.apply_ints]
  intro outcome
  cases folded : rest.foldlM op.onInts first with
  | ok k =>
      have result : outcome = .ok (.int k) := by simp only [outcome, folded]; rfl
      obtain ⟨sound, reached⟩ := Arithmetic.foldlM_eq_ok.1 folded
      rw [result]
      refine ⟨⟨fun _ => sound, fun _ => ⟨_, rfl⟩⟩, fun v same => ?_, fun cause => ⟨nofun, ?_⟩⟩
      · cases same
        exact ⟨k, rfl, reached⟩
      · rintro ⟨i, breaks, -⟩
        exact absurd breaks (sound i)
  | error cause =>
      have result : outcome = .error cause := by simp only [outcome, folded]; rfl
      obtain ⟨i, breaks, -⟩ := Arithmetic.foldlM_eq_error.1 folded
      rw [result]
      refine ⟨⟨nofun, fun sound => absurd breaks (sound i)⟩, nofun, fun other => ?_⟩
      refine Iff.trans ?_ Arithmetic.foldlM_eq_error
      rw [folded, Except.error.injEq, Except.error.injEq]

/-- The exact running result leaves the range although the exact end result does not. -/
example : (VariadicOp.arithmetic .add).apply ([Int64.maxValue, 1, -1].map .int) =
    .error (.integerOverflow "+") := by decide +kernel

/-! ### Division and remainder -/

namespace Word

variable {x y : Int64}

theorem toInt_ofInt {n : Int} (h : InRange n) : (Int64.ofInt n).toInt = n :=
  Int64.toInt_ofInt_of_le h.1 h.2

theorem toInt_ne_zero (h : y ≠ 0) : y.toInt ≠ 0 := fun zero => h (Int64.toInt_inj.1 zero)

/-- The remainder lies between zero and the dividend. -/
theorem tmod_between (a b : Int) :
    (0 ≤ a → 0 ≤ a.tmod b ∧ a.tmod b ≤ a) ∧ (a ≤ 0 → a ≤ a.tmod b ∧ a.tmod b ≤ 0) := by
  have size : (a.tmod b).natAbs ≤ a.natAbs := by
    rw [Int.natAbs_tmod]
    exact Nat.mod_le _ _
  have above : 0 ≤ a → 0 ≤ a.tmod b := Int.tmod_nonneg b
  have below : 0 ≤ -a → 0 ≤ -a.tmod b := by
    rw [← Int.neg_tmod]
    exact Int.tmod_nonneg b
  omega

theorem inRange_tmod (x y : Int64) : InRange (x.toInt.tmod y.toInt) := by
  have range := inRange_toInt x
  have between := tmod_between x.toInt y.toInt
  unfold InRange at *
  omega

/-- The product of quotient and divisor is what the remainder leaves of the dividend. -/
theorem inRange_tdiv_mul (x y : Int64) : InRange (x.toInt.tdiv y.toInt * y.toInt) := by
  have range := inRange_toInt x
  have between := tmod_between x.toInt y.toInt
  have split := Int.tdiv_mul_add_tmod x.toInt y.toInt
  unfold InRange at *
  omega

/-- The only quotient out of range is the least word divided by minus one. -/
theorem inRange_tdiv (h : y ≠ 0) :
    InRange (x.toInt.tdiv y.toInt) ↔ ¬(x = Int64.minValue ∧ y = -1) := by
  have range := inRange_toInt x
  have nonzero := toInt_ne_zero h
  have least : x = Int64.minValue ↔ x.toInt = -0x8000000000000000 := Int64.toInt_inj.symm
  have negative : y = -1 ↔ y.toInt = -1 := Int64.toInt_inj.symm
  rw [least, negative]
  unfold InRange at *
  have size : (x.toInt.tdiv y.toInt).natAbs = x.toInt.natAbs / y.toInt.natAbs := Int.natAbs_tdiv _ _
  by_cases one : y.toInt = 1
  · rw [one, Int.tdiv_one]
    omega
  · by_cases minusOne : y.toInt = -1
    · rw [minusOne, Int.tdiv_neg, Int.tdiv_one]
      omega
    · -- A divisor of at least two halves the magnitude.
      have halved : x.toInt.natAbs / y.toInt.natAbs ≤ x.toInt.natAbs / 2 :=
        Nat.div_le_div_left (by omega) (by decide)
      omega

theorem quot?_eq (h : y ≠ 0) :
    quot? x y = if x = Int64.minValue ∧ y = -1 then none
      else some (Int64.ofInt (x.toInt.tdiv y.toInt)) := by
  rw [quot?, ofInt?]
  simp only [inRange_tdiv h, ite_not]

theorem rem?_eq (h : y ≠ 0) :
    rem? x y = if x = Int64.minValue ∧ y = -1 then none
      else some (Int64.ofInt (x.toInt.tmod y.toInt)) := by
  rw [rem?, quot?_eq h]
  split
  · rfl
  · exact if_pos (inRange_tmod x y)

end Word

/-- The three operators that divide one integer by another. -/
inductive Division where
  | quotient
  | mod
  | rem

namespace Division

def symbol : Division → String
  | quotient => (VariadicOp.arithmetic .div).symbol
  | mod => BinaryOp.mod.symbol
  | rem => BinaryOp.rem.symbol

def apply : Division → Int64 → Int64 → Except Cause Value
  | quotient, x, y => (VariadicOp.arithmetic .div).apply [.int x, .int y]
  | mod, x, y => BinaryOp.mod.apply (.int x) (.int y)
  | rem, x, y => BinaryOp.rem.apply (.int x) (.int y)

/-- The result over the unbounded integers. -/
def exact : Division → Int → Int → Int
  | quotient, a, b => a.tdiv b
  | mod, a, b | rem, a, b => a.tmod b

variable {x y : Int64}

theorem remainder_eq (symbol : String) (x y : Int64) :
    (Number.int x).remainder symbol (.int y) =
      if y = 0 then .error .divisionByZero
      else if x = Int64.minValue ∧ y = -1 then .error (.integerOverflow symbol)
      else .ok (.int (Int64.ofInt (x.toInt.tmod y.toInt))) := by
  unfold Number.remainder
  dsimp only
  split
  · rfl
  · next nonzero =>
      rw [Word.rem?_eq nonzero]
      by_cases overflow : x = Int64.minValue ∧ y = -1
      · simp only [if_pos overflow]
      · simp only [if_neg overflow]

/-- The three operators fail for the same operands, for the same reasons. -/
theorem apply_eq (d : Division) (x y : Int64) :
    d.apply x y =
      if y = 0 then .error .divisionByZero
      else if x = Int64.minValue ∧ y = -1 then .error (.integerOverflow d.symbol)
      else .ok (.int (Int64.ofInt (d.exact x.toInt y.toInt))) := by
  cases d with
  | quotient =>
      rw [apply, VariadicOp.apply_pair]
      unfold Arithmetic.onInts
      dsimp only
      split
      · rfl
      · next nonzero =>
          rw [Word.quot?_eq nonzero]
          by_cases overflow : x = Int64.minValue ∧ y = -1
          · simp only [if_pos overflow]
            rfl
          · simp only [if_neg overflow]
            rfl
  | mod | rem =>
      change (do
        let n ← (Number.int x).remainder _ (.int y)
        return Value.number n) = _
      rw [remainder_eq]
      split
      · rfl
      · split <;> rfl

/-- Quotient and remainder in range put the dividend together again without an overflow. -/
theorem recombine {q r : Int64} (hq : q.toInt = x.toInt.tdiv y.toInt)
    (hr : r.toInt = x.toInt.tmod y.toInt) :
    (do
      let product ← (VariadicOp.arithmetic .mul).apply [.int q, .int y]
      (VariadicOp.arithmetic .add).apply [product, .int r]) = .ok (.int x) := by
  let p := Int64.ofInt (q.toInt * y.toInt)
  have hp : p.toInt = q.toInt * y.toInt :=
    Word.toInt_ofInt (hq ▸ Word.inRange_tdiv_mul x y)
  have product : Arithmetic.mul.onInts q y = .ok p := Arithmetic.onInts_eq_ok.2 ⟨nofun, hp⟩
  have total : x.toInt = p.toInt + r.toInt := by
    rw [hp, hq, hr, Int.tdiv_mul_add_tmod]
  have sum : Arithmetic.add.onInts p r = .ok x := Arithmetic.onInts_eq_ok.2 ⟨nofun, total⟩
  rw [VariadicOp.apply_pair, product]
  change (VariadicOp.arithmetic .add).apply [.int p, .int r] = _
  rw [VariadicOp.apply_pair, sum]
  rfl

/-- On integers, `/`, `MOD` and `REM` fail together: for a zero divisor, and with an overflow for the
least word divided by minus one. Where they succeed, the remainder is smaller than the divisor and has the
sign of the dividend, and the checked operators put the dividend together again without an overflow. -/
theorem division_agrees (x y : Int64) :
    (∀ d : Division,
      (d.apply x y = .error .divisionByZero ↔ y = 0) ∧
      (d.apply x y = .error (.integerOverflow d.symbol) ↔ x = Int64.minValue ∧ y = -1) ∧
      ((∃ v, d.apply x y = .ok v) ↔ ¬(y = 0 ∨ x = Int64.minValue ∧ y = -1))) ∧
    ∀ v w u, quotient.apply x y = .ok v → mod.apply x y = .ok w → rem.apply x y = .ok u →
      ∃ q r : Int64, v = .int q ∧ w = .int r ∧ u = .int r ∧
        r.toInt.natAbs < y.toInt.natAbs ∧ (r = 0 ∨ r.toInt.sign = x.toInt.sign) ∧
        (do
          let product ← (VariadicOp.arithmetic .mul).apply [v, .int y]
          (VariadicOp.arithmetic .add).apply [product, w]) = .ok (.int x) := by
  simp only [apply_eq]
  by_cases zero : y = 0
  · simp [zero]
  · by_cases overflow : x = Int64.minValue ∧ y = -1
    · simp [overflow]
    · simp only [zero, overflow, if_false]
      refine ⟨fun d => ⟨⟨nofun, nofun⟩, ⟨nofun, nofun⟩, ⟨fun _ => nofun, fun _ => ⟨_, rfl⟩⟩⟩, ?_⟩
      rintro v w u hv hw hu
      cases hv
      cases hw
      cases hu
      have hq : (Int64.ofInt (x.toInt.tdiv y.toInt)).toInt = x.toInt.tdiv y.toInt :=
        Word.toInt_ofInt ((Word.inRange_tdiv zero).2 overflow)
      have hr := Word.toInt_ofInt (Word.inRange_tmod x y)
      refine ⟨_, _, rfl, rfl, rfl, ?_, ?_, recombine hq hr⟩
      · rw [exact, hr, Int.natAbs_tmod]
        exact Nat.mod_lt _ (Int.natAbs_pos.2 (Word.toInt_ne_zero zero))
      · rw [exact, hr, Int.sign_tmod]
        split
        · next divides =>
            refine .inl (Int64.toInt_inj.1 ?_)
            rw [hr, Int.tmod_eq_zero_of_dvd divides]
            rfl
        · exact .inr rfl

end Division

end MiniLisp
