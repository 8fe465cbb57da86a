import MiniLisp.Number.Binary64

/-!
Decimal text with a fixed number of places. The value is scaled and rounded once, exactly, and the
digits are split at the point. Main statement: `roundHalfEven` is within half a unit of the quotient
(`roundHalfEven_near`).
-/

namespace MiniLisp.Decimal

/-- The integer nearest to `num / den`; of two equally near ones the even one. -/
def roundHalfEven (num den : Nat) : Nat :=
  let floor := num / den
  let twice := 2 * (num % den)
  if twice < den then floor
  else if twice = den then floor + floor % 2
  else floor + 1

theorem roundHalfEven_near (num : Nat) {den : Nat} (h : 0 < den) :
    2 * (roundHalfEven num den * den) ≤ 2 * num + den ∧
      2 * num ≤ 2 * (roundHalfEven num den * den) + den := by
  have split := Nat.div_add_mod num den
  have below := Nat.mod_lt num h
  have parity := Nat.mod_two_eq_zero_or_one (num / den)
  rw [Nat.mul_comm] at split
  unfold roundHalfEven
  simp only
  split
  · omega
  · split
    · rcases parity with even | odd
      · rw [even, Nat.add_zero]
        omega
      · rw [odd, Nat.add_mul, Nat.one_mul]
        omega
    · rw [Nat.add_mul, Nat.one_mul]
      omega

/-- The digits of `n`, with zeros in front up to the given width. -/
def padded (width n : Nat) : String :=
  let digits := Nat.repr n
  String.ofList (List.replicate (width - digits.length) '0') ++ digits

/-- A number of units of the last place, written with a point. -/
def placed (places units : Nat) : String :=
  Nat.repr (units / Nat.pow 10 places) ++ "." ++ padded places (units % Nat.pow 10 places)

/-- A magnitude `mantissa * 2 ^ exponent` in units of the last place, rounded half to even. -/
def scaled (places mantissa : Nat) (exponent : Int) : Nat :=
  roundHalfEven (mantissa * Nat.pow 10 places * Nat.pow 2 exponent.toNat)
    (Nat.pow 2 (-exponent).toNat)

/-- The text of a float with the given number of places, at least one. The sign of zero is written,
and there is never an exponent. -/
def fixed (places : Nat) (x : Float) : String :=
  match Binary64.view x with
  | .nan => "NaN"
  | .infinite false => "inf"
  | .infinite true => "-inf"
  | .finite parts =>
      (if parts.negative then "-" else "") ++
        placed places (scaled places parts.mantissa parts.exponent)

end MiniLisp.Decimal
