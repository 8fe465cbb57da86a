import Mathlib
import MiniLisp.Number.Binary64

/-!
The order of floats. Every float that is a number has a rank, an integer that grows with it: the magnitude
of the encoding under the sign. Two floats are compared by their ranks, and what is not a number has none
(`Binary64.compare?_eq`), so the comparison is a total order but for equally ranked zeros.
-/

namespace MiniLisp.Binary64

open Float.Model Float.Model.UnpackedFloat

/-- The place of a finite magnitude among the finite magnitudes. -/
def place (mantissa : Nat) (exponent : Int) : Int := (exponent + 1074) * 2 ^ 52 + mantissa

/-- A mantissa and an exponent as they are read from an encoding: the mantissa has its leading bit unless
the exponent is the least one. -/
structure Canonical (mantissa : Nat) (exponent : Int) : Prop where
  mantissa_pos : 0 < mantissa
  mantissa_lt : mantissa < 2 ^ 53
  exponent_ge : -1074 ≤ exponent
  exponent_le : exponent ≤ 971
  leading : 2 ^ 52 ≤ mantissa ∨ exponent = -1074

/-- Magnitudes are ordered by exponent, then by mantissa. -/
theorem compare_place {m₁ m₂ : Nat} {e₁ e₂ : Int} (h₁ : Canonical m₁ e₁) (h₂ : Canonical m₂ e₂) :
    (compare e₁ e₂).then (compare m₁ m₂) = compare (place m₁ e₁) (place m₂ e₂) := by
  obtain ⟨-, lt₁, ge₁, -, leading₁⟩ := h₁
  obtain ⟨-, lt₂, ge₂, -, leading₂⟩ := h₂
  unfold place
  rcases Int.lt_trichotomy e₁ e₂ with lt | rfl | gt
  · rw [Int.compare_eq_lt.2 lt, Int.compare_eq_lt.2 (by omega)]
    rfl
  · rcases Nat.lt_trichotomy m₁ m₂ with lt | rfl | gt
    · rw [Int.compare_eq_eq.2 rfl, Nat.compare_eq_lt.2 lt, Int.compare_eq_lt.2 (by omega)]
      rfl
    · rw [Int.compare_eq_eq.2 rfl, Nat.compare_eq_eq.2 rfl, Int.compare_eq_eq.2 rfl]
      rfl
    · rw [Int.compare_eq_eq.2 rfl, Nat.compare_eq_gt.2 gt, Int.compare_eq_gt.2 (by omega)]
      rfl
  · rw [Int.compare_eq_gt.2 gt, Int.compare_eq_gt.2 (by omega)]
    rfl

/-- No two magnitudes have one place. -/
theorem Canonical.eq_of_place {m₁ m₂ : Nat} {e₁ e₂ : Int} (h₁ : Canonical m₁ e₁) (h₂ : Canonical m₂ e₂)
    (same : place m₁ e₁ = place m₂ e₂) : m₁ = m₂ ∧ e₁ = e₂ := by
  have ordered := compare_place h₁ h₂
  rw [same, Int.compare_eq_eq.2 rfl, Ordering.then_eq_eq, Int.compare_eq_eq, Nat.compare_eq_eq] at ordered
  exact ordered.symm

theorem Canonical.place_pos {m : Nat} {e : Int} (h : Canonical m e) : 0 < place m e := by
  obtain ⟨pos, -, ge, -, -⟩ := h
  unfold place
  omega

/-- The rank of infinity. -/
def top : Int := 2047 * 2 ^ 52

theorem Canonical.place_lt_top {m : Nat} {e : Int} (h : Canonical m e) : place m e < top := by
  obtain ⟨-, lt, -, le, -⟩ := h
  unfold place top
  omega

def rankOf : UnpackedFloat → Option Int
  | .notANumber => none
  | .infinity s => some (s.apply top)
  | .zero _ => some 0
  | .finite s m e _ => some (s.apply (place m e))

/-- The rank of a float that is a number. -/
def rank? (x : Float) : Option Int := rankOf x.toModel.unpack

/-- What an encoding is read as. -/
inductive Read : UnpackedFloat → Prop
  | notANumber : Read .notANumber
  | infinity (s : Sign) : Read (.infinity s)
  | zero (s : Sign) : Read (.zero s)
  | finite (s : Sign) {m : Nat} {e : Int} (pos : 0 < m) (canonical : Canonical m e) :
      Read (.finite s m e pos)

/-- The leading bit that an encoding leaves out. -/
theorem toNat_leading {w : Nat} (v : BitVec w) : (1#1 ++ v).toNat = 2 ^ w + v.toNat := by
  have apart := Nat.two_pow_add_eq_or_of_lt v.isLt 1
  rw [Nat.mul_one] at apart
  rw [BitVec.toNat_append, Nat.shiftLeft_eq, apart]
  simp

theorem read_unpack (b : BitVec Format.binary64.numBits) : Read (UnpackedFloat.unpack .binary64 b) := by
  have bias : (Format.binary64.exponentBias : Int) = 1023 := rfl
  have width : (Format.binary64.mantissaBitsWithoutImplicit : Int) = 52 := rfl
  have fraction_lt : (unpackMantissa b).toNat < 2 ^ 52 := (unpackMantissa b).isLt
  have exponent_lt : (unpackExponent b).toNat < 2 ^ 11 := (unpackExponent b).isLt
  unfold UnpackedFloat.unpack
  dsimp only
  split
  · split
    · exact .infinity _
    · exact .notANumber
  · next notTop =>
      split
      · next least =>
          split
          · exact .zero _
          · next nonzero =>
              have zero : (unpackExponent b).toNat = 0 := congrArg BitVec.toNat least
              refine .finite _ _ ⟨?_, ?_, ?_, ?_, .inr ?_⟩
              · exact Nat.pos_of_ne_zero fun empty => nonzero (BitVec.eq_of_toNat_eq empty)
              all_goals omega
      · next notLeast =>
          have positive : (unpackExponent b).toNat ≠ 0 := fun zero => notLeast (BitVec.eq_of_toNat_eq zero)
          have small : (unpackExponent b).toNat ≠ 2 ^ 11 - 1 := fun top => notTop (BitVec.eq_of_toNat_eq top)
          have leading : (1#1 ++ unpackMantissa b).toNat = 2 ^ 52 + (unpackMantissa b).toNat :=
            toNat_leading (unpackMantissa b)
          refine .finite _ _ ⟨?_, ?_, ?_, ?_, .inl ?_⟩
          all_goals omega

theorem compare_neg (i j : Int) : compare (-i) (-j) = (compare i j).swap := by
  rw [Int.compare_swap]
  rcases Int.lt_trichotomy i j with lt | rfl | gt
  · rw [Int.compare_eq_gt.2 lt, Int.compare_eq_gt.2 (Int.neg_lt_neg lt)]
  · rw [Int.compare_eq_eq.2 rfl, Int.compare_eq_eq.2 rfl]
  · rw [Int.compare_eq_lt.2 gt, Int.compare_eq_lt.2 (Int.neg_lt_neg gt)]

theorem lt_eq_compare {i j : Int} (h : i < j) : some Ordering.lt = some (compare i j) := by
  rw [Int.compare_eq_lt.2 h]

theorem gt_eq_compare {i j : Int} (h : j < i) : some Ordering.gt = some (compare i j) := by
  rw [Int.compare_eq_gt.2 h]

/-- Two numbers are in the order of their ranks. -/
theorem compare_of_read {a b : UnpackedFloat} (ha : Read a) (hb : Read b) :
    a.compare b = (rankOf a).bind fun i => (rankOf b).map fun j => compare i j := by
  cases ha with
  | notANumber => rfl
  | infinity s =>
      cases hb with
      | notANumber => cases s <;> rfl
      | infinity t => cases s <;> cases t <;> rfl
      | zero t => cases s <;> rfl
      | finite t pos canonical =>
          have above := canonical.place_pos
          have below := canonical.place_lt_top
          cases s with
          | negative => cases t <;> exact lt_eq_compare (by simp only [Sign.apply]; omega)
          | positive => cases t <;> exact gt_eq_compare (by simp only [Sign.apply]; omega)
  | zero s =>
      cases hb with
      | notANumber => rfl
      | infinity t => cases t <;> rfl
      | zero t => rfl
      | finite t pos canonical =>
          have above := canonical.place_pos
          cases t with
          | negative => exact gt_eq_compare (by simp only [Sign.apply]; omega)
          | positive => exact lt_eq_compare (by simp only [Sign.apply]; omega)
  | finite s pos canonical =>
      have above := canonical.place_pos
      have below := canonical.place_lt_top
      cases hb with
      | notANumber => cases s <;> rfl
      | infinity t =>
          cases t with
          | negative => cases s <;> exact gt_eq_compare (by simp only [Sign.apply]; omega)
          | positive => cases s <;> exact lt_eq_compare (by simp only [Sign.apply]; omega)
      | zero t =>
          cases s with
          | negative => exact lt_eq_compare (by simp only [Sign.apply]; omega)
          | positive => exact gt_eq_compare (by simp only [Sign.apply]; omega)
      | finite t pos' canonical' =>
          have above' := canonical'.place_pos
          have ordered := compare_place canonical canonical'
          cases s with
          | negative =>
              cases t with
              | negative => exact congrArg some ((congrArg Ordering.swap ordered).trans (compare_neg _ _).symm)
              | positive => exact lt_eq_compare (by simp only [Sign.apply]; omega)
          | positive =>
              cases t with
              | negative => exact gt_eq_compare (by simp only [Sign.apply]; omega)
              | positive => exact congrArg some ordered

theorem unpack_compare (x y : Float) :
    x.toModel.unpack.compare y.toModel.unpack =
      (rank? x).bind fun i => (rank? y).map fun j => compare i j :=
  compare_of_read (read_unpack _) (read_unpack _)

theorem lt_iff {x y : Float} : x < y ↔ ∃ i j, rank? x = some i ∧ rank? y = some j ∧ i < j := by
  have unpacked : x < y ↔ x.toModel.unpack.compare y.toModel.unpack = some .lt := by
    simp [LT.lt, Float.lt, Float.Model.lt, UnpackedFloat.lt]
  rw [unpacked, unpack_compare]
  cases rank? x <;> cases rank? y <;> simp [Int.compare_eq_lt]

theorem beq_iff {x y : Float} : x == y ↔ rank? x ≠ none ∧ rank? x = rank? y := by
  have unpacked : x == y ↔ (x.toModel.unpack.compare y.toModel.unpack == some .eq) := Iff.rfl
  rw [unpacked, beq_iff_eq, unpack_compare]
  cases rank? x <;> cases rank? y <;> simp

theorem compare?_of_ranks {x y : Float} {i j : Int} (hx : rank? x = some i) (hy : rank? y = some j) :
    compare? x y = some (compare i j) := by
  have less : x < y ↔ i < j := by simp [lt_iff, hx, hy]
  have greater : y < x ↔ j < i := by simp [lt_iff, hx, hy]
  have equal : x == y ↔ i = j := by simp [beq_iff, hx, hy]
  unfold compare?
  rcases Int.lt_trichotomy i j with lt | rfl | gt
  · rw [if_pos (less.2 lt), Int.compare_eq_lt.2 lt]
  · rw [if_neg (mt less.1 (Int.lt_irrefl i)), if_neg (mt greater.1 (Int.lt_irrefl i)),
      if_pos (equal.2 rfl), Int.compare_eq_eq.2 rfl]
  · rw [if_neg (mt less.1 (Int.lt_asymm gt)), if_pos (greater.2 gt), Int.compare_eq_gt.2 gt]

theorem compare?_of_unranked {x y : Float} (h : rank? x = none ∨ rank? y = none) :
    compare? x y = none := by
  have less : ¬x < y := by rcases h with h | h <;> simp [lt_iff, h]
  have greater : ¬y < x := by rcases h with h | h <;> simp [lt_iff, h]
  have equal : ¬x == y := by rcases h with h | h <;> simp [beq_iff, h]
  unfold compare?
  rw [if_neg less, if_neg greater, if_neg equal]

/-- Floats are compared by their ranks, and a float without a rank is in no order. -/
theorem compare?_eq (x y : Float) :
    compare? x y = (rank? x).bind fun i => (rank? y).map fun j => compare i j := by
  cases hx : rank? x with
  | none => exact compare?_of_unranked (.inl hx)
  | some i =>
      cases hy : rank? y with
      | none => exact compare?_of_unranked (.inr hy)
      | some j => exact compare?_of_ranks hx hy

theorem isNaN_iff {x : Float} : x.isNaN ↔ rank? x = none := by
  have unpacked : x.isNaN = x.toModel.unpack.isNaN := rfl
  rw [unpacked, UnpackedFloat.isNaN_iff, rank?]
  cases x.toModel.unpack <;> simp [rankOf]

end MiniLisp.Binary64
