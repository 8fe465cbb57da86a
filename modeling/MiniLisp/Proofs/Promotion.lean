import MiniLisp.Number.Decimal
import MiniLisp.Number.Word
import MiniLisp.Proofs.FloatOrder

/-!
The conversion of words to floats. A word beyond the mantissa is rounded half to even at the bit that still
fits, so the rank of the float grows with the word (`Binary64.promotedRank_mono`). Every word has a rank
(`Binary64.rank?_ofWord`), and different words of one rank have one float (`Binary64.ofWord_congr`).
-/

namespace MiniLisp

namespace Decimal

theorem roundHalfEven_bounds (num den : Nat) :
    num / den ≤ roundHalfEven num den ∧ roundHalfEven num den ≤ num / den + 1 := by
  unfold roundHalfEven
  dsimp only
  split
  · omega
  · split <;> omega

theorem roundHalfEven_mono {a b : Nat} (den : Nat) (h : a ≤ b) :
    roundHalfEven a den ≤ roundHalfEven b den := by
  have quotients : a / den ≤ b / den := Nat.div_le_div_right h
  have boundsA := roundHalfEven_bounds a den
  have boundsB := roundHalfEven_bounds b den
  rcases Nat.lt_or_eq_of_le quotients with lt | same
  · omega
  · -- With one quotient, the remainders are in the order of the numbers.
    have splitA := Nat.div_add_mod a den
    have splitB := Nat.div_add_mod b den
    rw [same] at splitA
    have remainders : a % den ≤ b % den := by omega
    unfold roundHalfEven
    dsimp only
    rw [same]
    split
    · grind
    · split <;> grind

end Decimal

namespace Binary64

open Float.Model Float.Model.UnpackedFloat

/-! ### Rounding -/

/-- What is kept of a number divided by another: the quotient, whether the remainder is half of the divisor
at least, and whether it is neither zero nor half of it. -/
structure Keeps (num den : Nat) (em : ExtendedMantissa) : Prop where
  mantissa : em.mantissa = num / den
  round : em.roundBit ↔ den ≤ 2 * (num % den)
  sticky : em.stickyBit ↔ 2 * (num % den) ≠ 0 ∧ 2 * (num % den) ≠ den

namespace Keeps

variable {num den : Nat} {em : ExtendedMantissa}

theorem exact (num : Nat) : Keeps num 1 (.ofMantissaAndAccuracy num .exact) where
  mantissa := (Nat.div_one num).symm
  round := by simp [ExtendedMantissa.ofMantissaAndAccuracy, Nat.mod_one]
  sticky := by simp [ExtendedMantissa.ofMantissaAndAccuracy, Nat.mod_one]

theorem shiftRightOne (pos : 0 < den) (h : Keeps num den em) :
    Keeps num (den * 2) em.shiftRightOne := by
  have small : num % den < den := Nat.mod_lt num pos
  have split : num % (den * 2) = num % den + den * (num / den % 2) := Nat.mod_mul
  obtain ⟨mantissa, round, sticky⟩ := h
  -- The remainder grows by the divisor if the bit that is shifted out is set.
  rcases Nat.mod_two_eq_zero_or_one (num / den) with even | odd
  · rw [even, Nat.mul_zero, Nat.add_zero] at split
    refine ⟨?_, ?_, ?_⟩
    · rw [ExtendedMantissa.shiftRightOne, mantissa, Nat.div_div_eq_div_mul]
    · simp only [ExtendedMantissa.shiftRightOne, mantissa, even, split]
      simp
      omega
    · simp only [ExtendedMantissa.shiftRightOne, Bool.or_eq_true, round, sticky, split]
      omega
  · rw [odd, Nat.mul_one] at split
    refine ⟨?_, ?_, ?_⟩
    · rw [ExtendedMantissa.shiftRightOne, mantissa, Nat.div_div_eq_div_mul]
    · simp only [ExtendedMantissa.shiftRightOne, mantissa, odd, split]
      simp
      omega
    · simp only [ExtendedMantissa.shiftRightOne, Bool.or_eq_true, round, sticky, split]
      omega

theorem shiftRight (h : Keeps num 1 em) (n : Nat) : Keeps num (2 ^ n) (em >>> n) := by
  induction n with
  | zero => exact h
  | succ n ih => exact ih.shiftRightOne (Nat.two_pow_pos n)

/-- The two bits decide the rounding. -/
theorem roundedMantissa (pos : 0 < den) (h : Keeps num den em) :
    em.roundedMantissa = Decimal.roundHalfEven num den := by
  have small : num % den < den := Nat.mod_lt num pos
  obtain ⟨m, round, sticky⟩ := em
  obtain ⟨rfl, round_iff, sticky_iff⟩ := h
  dsimp only at round_iff sticky_iff
  unfold Decimal.roundHalfEven
  dsimp only
  cases round with
  | false =>
      have below : 2 * (num % den) < den := by simpa using round_iff
      rw [if_pos below]
      cases sticky <;> rfl
  | true =>
      have above : den ≤ 2 * (num % den) := by simpa using round_iff
      rw [if_neg (by omega)]
      cases sticky with
      | false =>
          have half : 2 * (num % den) = den := by simp at sticky_iff; omega
          rw [if_pos half]
          rfl
      | true =>
          have more : 2 * (num % den) ≠ 0 ∧ 2 * (num % den) ≠ den := by simpa using sticky_iff
          rw [if_neg more.2]
          rfl

end Keeps

theorem targetExponent_eq (m : Nat) (e : Int) :
    Format.binary64.targetExponent (totalExponent m e) = max (m.log2 + e - 52) (-1074) := by
  have bits : (Format.binary64.mantissaBits : Int) = 53 := rfl
  have least : Format.binary64.minExponent = -1074 := by decide
  unfold Format.targetExponent totalExponent
  omega

theorem shiftToTargetExponent_eq {m shift : Nat} {e : Int}
    (h : (max (m.log2 + e - 52) (-1074) - e).toNat = shift) :
    shiftToTargetExponent .binary64 m e .exact =
      (ExtendedMantissa.ofMantissaAndAccuracy m .exact >>> shift, e + shift) := by
  unfold shiftToTargetExponent shiftToExponent
  dsimp only
  rw [targetExponent_eq, h]

/-- A mantissa that is rounded up to the next power of two is halved under the next exponent. This is the
same place. -/
theorem carry {m : Nat} {e : Int} (low : 2 ^ 52 ≤ m) (high : m ≤ 2 ^ 53) (ge : -1074 ≤ e)
    (le : e ≤ 970) :
    let shifted := shiftToTargetExponent .binary64 m e .exact
    Canonical shifted.1.mantissa shifted.2 ∧ 2 ^ 52 ≤ shifted.1.mantissa ∧
      place shifted.1.mantissa shifted.2 = place m e := by
  rcases Nat.lt_or_eq_of_le high with lt | rfl
  · have still : (max ((m.log2 : Int) + e - 52) (-1074) - e).toNat = 0 := by
      rw [(Nat.log2_eq_iff (by omega)).2 ⟨low, lt⟩]
      omega
    rw [shiftToTargetExponent_eq still]
    change Canonical m (e + 0) ∧ 2 ^ 52 ≤ m ∧ place m (e + 0) = place m e
    rw [Int.add_zero]
    exact ⟨⟨by omega, lt, ge, by omega, .inl low⟩, low, rfl⟩
  · have once : (max (((2 ^ 53 : Nat).log2 : Int) + e - 52) (-1074) - e).toNat = 1 := by
      rw [Nat.log2_two_pow]
      omega
    rw [shiftToTargetExponent_eq once]
    change Canonical (2 ^ 53 / 2) (e + 1) ∧ 2 ^ 52 ≤ 2 ^ 53 / 2 ∧
      place (2 ^ 53 / 2) (e + 1) = place (2 ^ 53) e
    refine ⟨⟨by decide, by decide, by omega, by omega, .inl (by decide)⟩, by decide, ?_⟩
    unfold place
    omega

/-- A number that is shifted to the left until its leading bit is in place. -/
def widened (n : Nat) : Nat := n * 2 ^ (52 - n.log2)

theorem widened_ne_zero {n : Nat} (pos : 0 < n) : widened n ≠ 0 :=
  Nat.mul_ne_zero (Nat.ne_of_gt pos) (Nat.ne_of_gt (Nat.two_pow_pos _))

theorem log2_widened {n : Nat} (pos : 0 < n) : (widened n).log2 = max n.log2 52 := by
  have split : max n.log2 52 = n.log2 + (52 - n.log2) := by omega
  have nonzero := widened_ne_zero pos
  refine (Nat.log2_eq_iff nonzero).2 ⟨?_, ?_⟩
  · rw [split, Nat.pow_add]
    exact Nat.mul_le_mul_right _ (Nat.log2_self_le (by omega))
  · rw [split, Nat.add_right_comm, Nat.pow_add]
    exact Nat.mul_lt_mul_of_pos_right Nat.lt_log2_self (Nat.two_pow_pos _)

/-- The mantissa of a positive number, rounded at the bit that still fits. -/
def rounded (n : Nat) : Nat := Decimal.roundHalfEven (widened n) (2 ^ (n.log2 - 52))

theorem rounded_bounds {n : Nat} (pos : 0 < n) : 2 ^ 52 ≤ rounded n ∧ rounded n ≤ 2 ^ 53 := by
  have bounds := Decimal.roundHalfEven_bounds (widened n) (2 ^ (n.log2 - 52))
  have nonzero := widened_ne_zero pos
  have log : (widened n).log2 = 52 + (n.log2 - 52) := by
    rw [log2_widened pos]
    omega
  obtain ⟨lower, upper⟩ := (Nat.log2_eq_iff nonzero).1 log
  rw [Nat.add_right_comm] at upper
  have least : 2 ^ 52 ≤ widened n / 2 ^ (n.log2 - 52) := by
    rwa [Nat.le_div_iff_mul_le (Nat.two_pow_pos _), ← Nat.pow_add]
  have most : widened n / 2 ^ (n.log2 - 52) < 2 ^ 53 := by
    rwa [Nat.div_lt_iff_lt_mul (Nat.two_pow_pos _), ← Nat.pow_add]
  unfold rounded
  omega

theorem roundWithAccuracy_eq {s : Sign} {m r : Nat} {e e' : Int} {em : ExtendedMantissa}
    (first : shiftToTargetExponent .binary64 m e .exact = (em, e')) (mantissa : em.roundedMantissa = r)
    (pos : 0 < (shiftToTargetExponent .binary64 r e' .exact).1.mantissa) :
    roundWithAccuracy .binary64 s m e .exact =
      .finite s (shiftToTargetExponent .binary64 r e' .exact).1.mantissa
        (shiftToTargetExponent .binary64 r e' .exact).2 pos := by
  subst mantissa
  unfold roundWithAccuracy
  rw [first]
  exact dif_neg (Nat.ne_of_gt pos)

/-- A positive number is rounded to a canonical one. -/
theorem round_eq {n : Nat} (pos : 0 < n) (lt : n < 2 ^ 64) (s : Sign) :
    ∃ m e h, UnpackedFloat.round .binary64 s n 0 = .finite s m e h ∧ Canonical m e ∧
      2 ^ 52 ≤ m ∧ place m e = place (rounded n) (n.log2 - 52) := by
  have log_lt : n.log2 < 64 := (Nat.log2_lt (by omega)).2 lt
  obtain ⟨low, high⟩ := rounded_bounds pos
  let e : Int := 0 - (52 - n.log2 : Nat)
  have wide : UnpackedFloat.round .binary64 s n 0 =
      roundWithAccuracy .binary64 s (widened n) e .exact := by
    have shift : (0 - max ((n.log2 : Int) + 0 - 52) (-1074)).toNat = 52 - n.log2 := by omega
    unfold UnpackedFloat.round decreaseExponent
    dsimp only
    rw [targetExponent_eq, shift, Nat.shiftLeft_eq]
    rfl
  have narrow : shiftToTargetExponent .binary64 (widened n) e .exact =
      (ExtendedMantissa.ofMantissaAndAccuracy (widened n) .exact >>> (n.log2 - 52), (n.log2 - 52 : Int)) := by
    have shift : (max (((widened n).log2 : Int) + e - 52) (-1074) - e).toNat = n.log2 - 52 := by
      rw [log2_widened pos]
      omega
    have exponent : e + (n.log2 - 52 : Nat) = (n.log2 - 52 : Int) := by omega
    rw [shiftToTargetExponent_eq shift, exponent]
  have mantissa : (ExtendedMantissa.ofMantissaAndAccuracy (widened n) .exact >>>
      (n.log2 - 52)).roundedMantissa = rounded n :=
    ((Keeps.exact (widened n)).shiftRight _).roundedMantissa (Nat.two_pow_pos _)
  obtain ⟨canonical, leading, same⟩ := carry (e := n.log2 - 52) low high (by omega) (by omega)
  exact ⟨_, _, canonical.mantissa_pos,
    wide.trans (roundWithAccuracy_eq narrow mantissa canonical.mantissa_pos), canonical, leading, same⟩

/-! ### Packing -/

/-- Packing a number that has its leading bit loses nothing. -/
theorem unpack_pack (s : Sign) {m : Nat} {e : Int} (canonical : Canonical m e) (leading : 2 ^ 52 ≤ m) :
    (Float.Model.pack (.finite s m e canonical.mantissa_pos)).unpack =
      .finite s m e canonical.mantissa_pos := by
  obtain ⟨pos, lt, ge, le, -⟩ := canonical
  have bias : (Format.binary64.exponentBias : Int) = 1023 := rfl
  have width : (Format.binary64.mantissaBitsWithoutImplicit : Int) = 52 := rfl
  have log : m.log2 = 52 := (Nat.log2_eq_iff (by omega)).2 ⟨leading, lt⟩
  let biased := (e + 1075).toNat
  have packed : UnpackedFloat.pack .binary64 (.finite s m e pos) =
      packComponents .binary64 s (BitVec.ofNat 11 biased) (BitVec.ofNat 52 m) := by
    have stored : (e + Format.binary64.exponentBias +
        Format.binary64.mantissaBitsWithoutImplicit).toNat = biased := by omega
    unfold UnpackedFloat.pack
    dsimp only
    rw [stored, if_neg (by omega), if_pos (by rw [log]; rfl)]
  have exponent : (BitVec.ofNat 11 biased).toNat = biased := by
    rw [BitVec.toNat_ofNat]
    omega
  have mantissa : (1#1 ++ BitVec.ofNat 52 m).toNat = m := by
    rw [toNat_leading, BitVec.toNat_ofNat]
    omega
  have notTop : BitVec.ofNat 11 biased ≠ -1#11 := fun same => by
    have top : biased = 2047 := exponent.symm.trans (congrArg BitVec.toNat same)
    omega
  have notLeast : BitVec.ofNat 11 biased ≠ 0#11 := fun same => by
    have zero : biased = 0 := exponent.symm.trans (congrArg BitVec.toNat same)
    omega
  change UnpackedFloat.unpack .binary64 (UnpackedFloat.pack .binary64 (.finite s m e pos)) = _
  rw [packed]
  unfold UnpackedFloat.unpack
  simp only [unpackMantissa_packComponents, unpackExponent_packComponents, unpackSign_packComponents,
    Sign.ofBitVec_toBitVec, if_neg notTop, if_neg notLeast, exponent, mantissa]
  congr 1
  omega

/-! ### Words -/

/-- The rank of the float for a natural number. -/
def rankOfNat (n : Nat) : Int := if n = 0 then 0 else place (rounded n) (n.log2 - 52)

theorem rankOfNat_of_pos {n : Nat} (pos : 0 < n) : rankOfNat n = place (rounded n) (n.log2 - 52) :=
  if_neg (Nat.ne_of_gt pos)

theorem rankOfNat_pos {n : Nat} (pos : 0 < n) : 0 < rankOfNat n := by
  have bounds := rounded_bounds pos
  rw [rankOfNat_of_pos pos]
  unfold place
  omega

theorem rankOfNat_nonneg (n : Nat) : 0 ≤ rankOfNat n := by
  rcases Nat.eq_zero_or_pos n with rfl | pos
  · exact Int.le_refl 0
  · exact Int.le_of_lt (rankOfNat_pos pos)

theorem rankOfNat_mono {m n : Nat} (h : m ≤ n) : rankOfNat m ≤ rankOfNat n := by
  rcases Nat.eq_zero_or_pos m with rfl | pos
  · exact rankOfNat_nonneg n
  · have lower : 2 ^ m.log2 ≤ m := Nat.log2_self_le (by omega)
    have logs : m.log2 ≤ n.log2 := (Nat.le_log2 (by omega)).2 (Nat.le_trans lower h)
    have boundsM := rounded_bounds pos
    have boundsN := rounded_bounds (Nat.lt_of_lt_of_le pos h)
    rw [rankOfNat_of_pos pos, rankOfNat_of_pos (Nat.lt_of_lt_of_le pos h)]
    unfold place
    rcases Nat.lt_or_eq_of_le logs with lt | same
    · omega
    · have mantissas : rounded m ≤ rounded n := by
        unfold rounded widened
        rw [same]
        exact Decimal.roundHalfEven_mono _ (Nat.mul_le_mul_right _ h)
      omega

/-- The float for a positive number is finite and has its leading bit. -/
theorem toFloat_eq {n : UInt64} (pos : 0 < n.toNat) :
    ∃ m e h, n.toFloat = .ofModel (.pack (.finite .positive m e h)) ∧ Canonical m e ∧ 2 ^ 52 ≤ m ∧
      place m e = rankOfNat n.toNat := by
  obtain ⟨m, e, h, rounds, canonical, leading, same⟩ := round_eq pos n.toNat_lt .positive
  refine ⟨m, e, h, ?_, canonical, leading, ?_⟩
  · have order : compare (n.toNat : Int) 0 = .gt := Int.compare_eq_gt.2 (by omega)
    rw [← rounds]
    change Float.ofModel (.pack (UnpackedFloat.normalize .binary64 (n.toNat : Int) 0 .positive)) = _
    unfold UnpackedFloat.normalize
    rw [order]
    rfl
  · rw [rankOfNat_of_pos pos, same]

theorem toFloat_zero {n : UInt64} (none : n.toNat = 0) : n.toFloat = (0 : UInt64).toFloat :=
  congrArg UInt64.toFloat (UInt64.toNat_inj.1 none)

theorem rank?_toFloat (n : UInt64) : rank? n.toFloat = some (rankOfNat n.toNat) := by
  rcases Nat.eq_zero_or_pos n.toNat with none | pos
  · rw [toFloat_zero none, none]
    rfl
  · obtain ⟨m, e, h, float, canonical, leading, same⟩ := toFloat_eq pos
    rw [float, rank?, unpack_pack .positive canonical leading, ← same]
    rfl

theorem rank?_neg_toFloat {n : UInt64} (pos : 0 < n.toNat) :
    rank? (-n.toFloat) = some (-rankOfNat n.toNat) := by
  obtain ⟨m, e, h, float, canonical, leading, same⟩ := toFloat_eq pos
  have negated : -n.toFloat = .ofModel (.pack (.finite .negative m e h)) := by
    rw [float]
    change Float.ofModel (.pack (Float.Model.pack (.finite .positive m e h)).unpack.neg) = _
    rw [unpack_pack .positive canonical leading]
    rfl
  rw [negated, rank?, unpack_pack .negative canonical leading, ← same]
  rfl

/-- Numbers of one rank have one float. -/
theorem toFloat_congr {m n : UInt64} (h : rankOfNat m.toNat = rankOfNat n.toNat) :
    m.toFloat = n.toFloat := by
  rcases Nat.eq_zero_or_pos m.toNat with noneM | posM
  · rcases Nat.eq_zero_or_pos n.toNat with noneN | posN
    · rw [toFloat_zero noneM, toFloat_zero noneN]
    · rw [noneM] at h
      exact absurd h (Int.ne_of_lt (rankOfNat_pos posN))
  · rcases Nat.eq_zero_or_pos n.toNat with noneN | posN
    · rw [noneN] at h
      exact absurd h (Int.ne_of_gt (rankOfNat_pos posM))
    · obtain ⟨m₁, e₁, h₁, float₁, canonical₁, leading₁, same₁⟩ := toFloat_eq posM
      obtain ⟨m₂, e₂, h₂, float₂, canonical₂, leading₂, same₂⟩ := toFloat_eq posN
      have places : place m₁ e₁ = place m₂ e₂ := by rw [same₁, same₂, h]
      obtain ⟨rfl, rfl⟩ := canonical₁.eq_of_place canonical₂ places
      rw [float₁, float₂]

/-- The magnitude of a word. -/
def magnitude (n : Int64) : UInt64 := UInt64.ofNat n.toInt.natAbs

theorem toNat_magnitude (n : Int64) : (magnitude n).toNat = n.toInt.natAbs := by
  have range := Word.inRange_toInt n
  unfold Word.InRange at range
  rw [magnitude, UInt64.toNat_ofNat']
  omega

theorem toInt_neg_iff {n : Int64} : n < 0 ↔ n.toInt < 0 := Int64.lt_iff_toInt_lt

/-- A word is promoted by its sign and its magnitude. -/
theorem ofWord_eq (n : Int64) :
    ofWord n = if n < 0 then -(magnitude n).toFloat else (magnitude n).toFloat := by
  unfold ofWord
  split
  · rfl
  · next nonnegative =>
      have same : n.toUInt64 = magnitude n := by
        have sign := mt toInt_neg_iff.2 nonnegative
        refine UInt64.toNat_inj.1 ?_
        rw [Int64.toNat_toUInt64_of_le (Int64.not_lt.1 nonnegative), toNat_magnitude,
          Int64.toNatClampNeg]
        omega
      rw [same]

/-- The rank of the float for a word. -/
def promotedRank (n : Int64) : Int :=
  if n < 0 then -rankOfNat n.toInt.natAbs else rankOfNat n.toInt.natAbs

/-- Every word is promoted to a float that is a number. -/
theorem rank?_ofWord (n : Int64) : rank? (ofWord n) = some (promotedRank n) := by
  rw [ofWord_eq, promotedRank, ← toNat_magnitude]
  split
  · next negative =>
      have sign := toInt_neg_iff.1 negative
      rw [rank?_neg_toFloat (by rw [toNat_magnitude]; omega)]
  · rw [rank?_toFloat]

/-- Promotion keeps the order of words, but it can make different words equal. -/
theorem promotedRank_mono {m n : Int64} (h : m ≤ n) : promotedRank m ≤ promotedRank n := by
  rw [Int64.le_iff_toInt_le] at h
  unfold promotedRank
  simp only [toInt_neg_iff]
  split
  · split
    · exact Int.neg_le_neg (rankOfNat_mono (by omega))
    · have low := rankOfNat_nonneg m.toInt.natAbs
      have high := rankOfNat_nonneg n.toInt.natAbs
      omega
  · rw [if_neg (by omega)]
    exact rankOfNat_mono (by omega)

/-- Words of one rank are promoted to one float. -/
theorem ofWord_congr {m n : Int64} (h : promotedRank m = promotedRank n) : ofWord m = ofWord n := by
  have floats (same : rankOfNat m.toInt.natAbs = rankOfNat n.toInt.natAbs) :
      (magnitude m).toFloat = (magnitude n).toFloat := by
    rw [← toNat_magnitude, ← toNat_magnitude] at same
    exact toFloat_congr same
  have low := rankOfNat_nonneg m.toInt.natAbs
  have high := rankOfNat_nonneg n.toInt.natAbs
  unfold promotedRank at h
  rw [ofWord_eq, ofWord_eq]
  by_cases signM : m < 0
  · have posM : 0 < rankOfNat m.toInt.natAbs :=
      rankOfNat_pos (by have sign := toInt_neg_iff.1 signM; omega)
    by_cases signN : n < 0
    · rw [if_pos signM, if_pos signN] at *
      rw [floats (Int.neg_inj.1 h)]
    · rw [if_pos signM, if_neg signN] at h
      omega
  · by_cases signN : n < 0
    · have posN : 0 < rankOfNat n.toInt.natAbs :=
        rankOfNat_pos (by have sign := toInt_neg_iff.1 signN; omega)
      rw [if_neg signM, if_pos signN] at h
      omega
    · rw [if_neg signM, if_neg signN] at *
      exact floats h

end Binary64

end MiniLisp
