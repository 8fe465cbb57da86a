import Mathlib
import MiniLisp.Proofs.Failures

/-!
Operators that combine their operands by an associative step: the connectives and the bitwise operators. Each
of them is a fold from a left identity of its step (`Connective.apply_eq_foldl`, `Bitwise.apply_eq_foldl`), and
in such a fold what a part of the operands comes to can stand for the part (`foldl_regroup`). The bitwise steps
are commutative besides. Main statement: operands can be grouped in any way, integers can also be put in any
order, and `LOGEQV` is `LOGXOR` or its complement (`VariadicOp.folds_rearranged`).
-/

namespace MiniLisp

section Folds

variable {α : Type} {f : α → α → α} {e : α}

theorem foldl_start [Std.LawfulLeftIdentity f e] (a : α) (rest : List α) :
    (a :: rest).foldl f e = rest.foldl f a :=
  congrArg (rest.foldl f) (Std.LawfulLeftIdentity.left_id a)

/-- A part that is folded from the left identity is one operand of the whole. -/
theorem foldl_part [Std.Associative f] [Std.LawfulLeftIdentity f e] (start : α) {part : List α}
    (given : part ≠ []) : f start (part.foldl f e) = part.foldl f start := by
  cases part with
  | nil => exact absurd rfl given
  | cons a rest =>
      calc f start ((a :: rest).foldl f e)
        _ = f start (rest.foldl f a) := congrArg (f start) (foldl_start a rest)
        _ = rest.foldl f (f start a) := List.foldl_assoc.symm

theorem foldl_regroup [Std.Associative f] [Std.LawfulLeftIdentity f e] (before after : List α)
    {part : List α} (given : part ≠ []) :
    (before ++ [part.foldl f e] ++ after).foldl f e = (before ++ part ++ after).foldl f e := by
  simp only [List.foldl_append]
  exact congrArg (after.foldl f) (foldl_part _ given)

end Folds

/-! ### Connectives -/

namespace Connective

/-- `AND` and `OR` of two operands. -/
def step : Connective → Value → Value → Value
  | and, a, b => if a.isNil then .nil else b
  | or, a, b => if a.isNil then b else a

/-- A left identity of the step. On the right `T` is none of `AND`, which would give `T` for any true operand. -/
def neutral : Connective → Value
  | and => .t
  | or => .nil

instance (op : Connective) : Std.Associative op.step where
  assoc a b c := by
    cases op with
    | and => by_cases ha : a.isNil <;> simp [step, ha, Value.isNil_iff]
    | or => by_cases ha : a.isNil <;> simp [step, ha]

instance (op : Connective) : Std.LawfulLeftIdentity op.step op.neutral where
  left_id a := by cases op <;> rfl

theorem apply_cons (op : Connective) (first next : Value) (rest : List Value) :
    op.apply first (next :: rest) = op.apply (op.step first next) rest := by
  cases op with
  | and =>
      by_cases h : first.isNil
      · simp [apply, step, h, Value.isNil_iff]
      · simp [apply, step, h]
  | or =>
      by_cases h : first.isNil
      · simp [apply, step, Value.isTrue, h]
      · simp [apply, step, Value.isTrue, h]

theorem apply_eq_foldl (op : Connective) (first : Value) (rest : List Value) :
    op.apply first rest = (first :: rest).foldl op.step op.neutral := by
  rw [foldl_start]
  induction rest generalizing first with
  | nil =>
      by_cases h : first.isNil
      · rw [Value.isNil_iff.1 h]
        cases op <;> rfl
      · cases op <;> simp [apply, Value.isTrue, h]
  | cons next rest ih => rw [apply_cons, ih, List.foldl_cons]

end Connective

/-! ### Bitwise operators -/

namespace Bitwise

/-- An identity of the step. -/
def neutral : Bitwise → Int64
  | and => -1
  | ior => 0
  | xor => 0
  | eqv => -1

instance (op : Bitwise) : Std.Associative op.onInts where
  assoc a b c := by
    cases op with
    | and => exact Int64.and_assoc a b c
    | ior => exact Int64.or_assoc a b c
    | xor => exact Int64.xor_assoc a b c
    | eqv => simp only [onInts, Int64.not_xor, Int64.xor_not, Int64.xor_assoc]

instance (op : Bitwise) : Std.Commutative op.onInts where
  comm a b := by
    cases op with
    | and => exact Int64.and_comm a b
    | ior => exact Int64.or_comm a b
    | xor => exact Int64.xor_comm a b
    | eqv => exact congrArg (~~~·) (Int64.xor_comm a b)

instance (op : Bitwise) : Std.LawfulLeftIdentity op.onInts op.neutral where
  left_id a := by cases op <;> simp [onInts, neutral]

theorem apply_eq_foldl (op : Bitwise) (first : Int64) (rest : List Int64) :
    op.apply first rest = (first :: rest).foldl op.onInts op.neutral := by
  rw [foldl_start]
  rfl

theorem foldl_xor_not (start : Int64) (ks : List Int64) :
    ks.foldl xor.onInts (~~~start) = ~~~ks.foldl xor.onInts start := by
  induction ks generalizing start with
  | nil => rfl
  | cons k ks ih =>
      have step : xor.onInts (~~~start) k = ~~~xor.onInts start k := Int64.not_xor
      rw [List.foldl_cons, List.foldl_cons, step, ih]

/-- Each step of `LOGEQV` complements that of `LOGXOR`, and two complements are none. -/
theorem foldl_eqv (start : Int64) (ks : List Int64) :
    ks.foldl eqv.onInts start =
      if Even ks.length then ks.foldl xor.onInts start else ~~~ks.foldl xor.onInts start := by
  induction ks generalizing start with
  | nil => rfl
  | cons k ks ih =>
      have step : eqv.onInts start k = ~~~xor.onInts start k := rfl
      rw [List.foldl_cons, List.foldl_cons, step, ih, foldl_xor_not, Int64.not_not, List.length_cons]
      by_cases even : Even ks.length
      · simp [even, Nat.even_add_one]
      · simp [even, Nat.even_add_one]

/-- `LOGEQV` starts from a complement itself. -/
theorem apply_eqv (first : Int64) (rest : List Int64) :
    eqv.apply first rest =
      if Odd (first :: rest).length then xor.apply first rest else ~~~xor.apply first rest := by
  have start : eqv.neutral = ~~~xor.neutral := rfl
  rw [apply_eq_foldl, apply_eq_foldl, foldl_eqv, start, foldl_xor_not, Int64.not_not]
  by_cases odd : Odd (first :: rest).length
  · rw [if_pos odd, if_neg (Nat.not_even_iff_odd.2 odd)]
  · rw [if_neg odd, if_pos (Nat.not_odd_iff_even.1 odd)]

end Bitwise

/-! ### Operands and results -/

namespace VariadicOp

variable {vs xs ys zs : List Value} {r v : Value}

theorem apply_connective (op : Connective) (given : vs ≠ []) :
    (connective op).apply vs = .ok (vs.foldl op.step op.neutral) := by
  cases vs with
  | nil => exact absurd rfl given
  | cons first rest => exact congrArg Except.ok (op.apply_eq_foldl first rest)

theorem apply_bitwise (op : Bitwise) {ks : List Int64} (given : ks ≠ []) :
    (bitwise op).apply (ks.map .int) = .ok (.int (ks.foldl op.onInts op.neutral)) := by
  cases ks with
  | nil => exact absurd rfl given
  | cons k ks =>
      rw [← op.apply_eq_foldl]
      exact Operand.integers_then _ k ks _

theorem apply_bitwise_of_refused (op : Bitwise) (h : Operand.firstRefused? Value.int? vs = some v) :
    (bitwise op).apply vs = .error (.typeMismatch (bitwise op).symbol "integer" v.typeName) := by
  cases vs with
  | nil => cases h
  | cons first rest => exact apply_of_no_integer rfl h

theorem ne_nil_of_apply {op : VariadicOp} (h : op.apply ys = .ok r) : ys ≠ [] := by
  rintro rfl
  cases h

/-- A bitwise operator succeeds on integers alone. -/
theorem integers_of_apply {op : Bitwise} (h : (bitwise op).apply ys = .ok r) :
    ∃ ks : List Int64, ks ≠ [] ∧ ys = ks.map .int ∧ r = .int (ks.foldl op.onInts op.neutral) := by
  rcases Operand.accepted_or_refused Value.int?_eq_some.1 ys with ⟨ks, rfl⟩ | ⟨v, found⟩
  · have given : ks ≠ [] := fun none => ne_nil_of_apply h (congrArg (List.map _) none)
    rw [apply_bitwise op given] at h
    exact ⟨ks, given, rfl, (Except.ok.inj h).symm⟩
  · rw [apply_bitwise_of_refused op found] at h
    cases h

theorem firstRefused?_ints (ks : List Int64) :
    Operand.firstRefused? Value.int? (ks.map .int) = none := by
  refine List.find?_eq_none.2 fun v mem => ?_
  obtain ⟨k, -, rfl⟩ := List.mem_map.1 mem
  exact Bool.false_ne_true

theorem regroup_connective {op : Connective} (h : (connective op).apply ys = .ok r) (xs zs : List Value) :
    (connective op).apply (xs ++ [r] ++ zs) = (connective op).apply (xs ++ ys ++ zs) := by
  have given := ne_nil_of_apply h
  rw [apply_connective op given] at h
  cases h
  rw [apply_connective op (by simp), apply_connective op (by simp [given]), foldl_regroup xs zs given]

/-- The operand that is blamed stands before the part or after it. -/
theorem regroup_bitwise {op : Bitwise} (h : (bitwise op).apply ys = .ok r) (xs zs : List Value) :
    (bitwise op).apply (xs ++ [r] ++ zs) = (bitwise op).apply (xs ++ ys ++ zs) := by
  obtain ⟨ks, given, rfl, rfl⟩ := integers_of_apply h
  have one : [Value.int (ks.foldl op.onInts op.neutral)] =
      [ks.foldl op.onInts op.neutral].map .int := rfl
  rw [one]
  rcases Operand.accepted_or_refused Value.int?_eq_some.1 xs with ⟨before, rfl⟩ | ⟨v, found⟩
  · rcases Operand.accepted_or_refused Value.int?_eq_some.1 zs with ⟨after, rfl⟩ | ⟨v, found⟩
    · -- nothing is refused, so both sides are folds of integers
      simp only [← List.map_append]
      rw [apply_bitwise op (by simp), apply_bitwise op (by simp [given]),
        foldl_regroup before after given]
    · have blamed (ms : List Int64) :
          Operand.firstRefused? Value.int? (before.map .int ++ ms.map .int ++ zs) = some v := by
        rw [← List.map_append, Operand.firstRefused?_append_of_accepted (firstRefused?_ints _), found]
      rw [apply_bitwise_of_refused op (blamed _), apply_bitwise_of_refused op (blamed _)]
  · have blamed (ms : List Value) : Operand.firstRefused? Value.int? (xs ++ ms ++ zs) = some v := by
      rw [List.append_assoc, Operand.firstRefused?_append_of_refused found]
    rw [apply_bitwise_of_refused op (blamed _), apply_bitwise_of_refused op (blamed _)]

theorem regroup {op : VariadicOp} (combines : op.isLogical ∨ op.isBitwise) (h : op.apply ys = .ok r)
    (xs zs : List Value) : op.apply (xs ++ [r] ++ zs) = op.apply (xs ++ ys ++ zs) := by
  cases op with
  | connective op => exact regroup_connective h xs zs
  | bitwise op => exact regroup_bitwise h xs zs
  | arithmetic | extremum | equal | notEqual => rcases combines with no | no <;> cases no

theorem apply_perm (op : Bitwise) {ks ls : List Int64} (h : ks.Perm ls) :
    (bitwise op).apply (ks.map .int) = (bitwise op).apply (ls.map .int) := by
  by_cases given : ks = []
  · subst given
    rw [h.nil_eq]
  · have given' : ls ≠ [] := fun none => given (List.perm_nil.1 (none ▸ h))
    rw [apply_bitwise op given, apply_bitwise op given', h.foldl_op_eq]

theorem apply_eqv (first : Int64) (rest : List Int64) :
    ∃ x, (bitwise .xor).apply ((first :: rest).map .int) = .ok (.int x) ∧
      (bitwise .eqv).apply ((first :: rest).map .int) =
        .ok (.int (if Odd (first :: rest).length then x else ~~~x)) := by
  refine ⟨Bitwise.xor.apply first rest, ?_, ?_⟩
  · rw [apply_bitwise .xor (List.cons_ne_nil _ _), Bitwise.apply_eq_foldl]
  · rw [apply_bitwise .eqv (List.cons_ne_nil _ _), ← Bitwise.apply_eq_foldl, Bitwise.apply_eqv]

/-- Operands that a connective or a bitwise operator combines can be combined beforehand, with the same value
or the same error. Integers of a bitwise operator can be put in any order, and `LOGEQV` of an odd number of
integers is their `LOGXOR`, of an even number its complement. -/
theorem folds_rearranged :
    (∀ op : VariadicOp, op.isLogical ∨ op.isBitwise → ∀ xs ys zs r, op.apply ys = .ok r →
        op.apply (xs ++ [r] ++ zs) = op.apply (xs ++ ys ++ zs)) ∧
      (∀ (op : Bitwise) (ks ls : List Int64), ks.Perm ls →
        (bitwise op).apply (ks.map .int) = (bitwise op).apply (ls.map .int)) ∧
      ∀ (first : Int64) (rest : List Int64), ∃ x,
        (bitwise .xor).apply ((first :: rest).map .int) = .ok (.int x) ∧
          (bitwise .eqv).apply ((first :: rest).map .int) =
            .ok (.int (if Odd (first :: rest).length then x else ~~~x)) :=
  ⟨fun _ combines xs _ zs _ h => regroup combines h xs zs, fun op _ _ h => apply_perm op h, apply_eqv⟩

/-- A part in front of an operand that is refused, and three integers in another order. -/
theorem folds_rearranged_eqv :
    (bitwise .eqv).apply [.int 3, .int 5] = .ok (.int (-7)) ∧
      (bitwise .eqv).apply [.int 6, .int (-7), .t] =
        (bitwise .eqv).apply [.int 6, .int 3, .int 5, .t] ∧
      (bitwise .eqv).apply [.int 6, .int 3, .int 5] = (bitwise .eqv).apply [.int 5, .int 6, .int 3] := by
  have part : (bitwise .eqv).apply [.int 3, .int 5] = .ok (.int (-7)) := by decide
  obtain ⟨grouped, ordered, -⟩ := folds_rearranged
  exact ⟨part, grouped (bitwise .eqv) (.inr rfl) [.int 6] [.int 3, .int 5] [.t] (.int (-7)) part,
    ordered .eqv [6, 3, 5] [5, 6, 3] (by decide)⟩

end VariadicOp

end MiniLisp
