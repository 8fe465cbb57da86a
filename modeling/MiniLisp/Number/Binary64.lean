/-!
Exact views of 64-bit binary floating-point numbers: a finite one is an integer times a power of two.
On this view rest the conversion of words, the partial order, and the remainder of a division that
truncates toward zero, which is always representable.
-/

namespace MiniLisp.Binary64

/-- A finite number `± mantissa * 2 ^ exponent`; zero keeps its sign. -/
structure Parts where
  negative : Bool
  mantissa : Nat
  exponent : Int
  deriving DecidableEq

inductive View where
  | finite (parts : Parts)
  | infinite (negative : Bool)
  | nan
  deriving DecidableEq

/-- The exponent of the smallest positive number. -/
def minExponent : Int := -1074

/-- Reads the fields of the encoding: a sign bit, eleven bits of biased exponent, 52 bits of fraction.
A biased exponent of zero has no hidden leading bit. -/
def view (x : Float) : View :=
  let bits : Nat := x.toBits.toNat
  let negative := bits / Nat.pow 2 63 == 1
  let biased : Nat := bits / Nat.pow 2 52 % Nat.pow 2 11
  let fraction : Nat := bits % Nat.pow 2 52
  if biased = 2047 then
    if fraction = 0 then .infinite negative else .nan
  else if biased = 0 then .finite ⟨negative, fraction, minExponent⟩
  else .finite ⟨negative, Nat.pow 2 52 + fraction, (biased : Int) - 1075⟩

/-- The number `± mantissa * 2 ^ exponent` for a mantissa below `2 ^ 53` and an exponent that is no less
than the minimal one: the mantissa is shifted left until it has its leading bit or the exponent is
minimal, and the fields are put together. -/
def ofParts (parts : Parts) : Float :=
  let room := 53 - (if parts.mantissa = 0 then 0 else parts.mantissa.log2 + 1)
  let shift := min room (parts.exponent - minExponent).toNat
  let mantissa := parts.mantissa * Nat.pow 2 shift
  let exponent := parts.exponent - shift
  let magnitude :=
    if mantissa < Nat.pow 2 52 then mantissa
    else (exponent + 1075).toNat * Nat.pow 2 52 + (mantissa - Nat.pow 2 52)
  Float.ofBits (UInt64.ofNat ((if parts.negative then Nat.pow 2 63 else 0) + magnitude))

def nan : Float := Float.ofBits 0x7ff8000000000000

/-- The number nearest to a word. Rounding is symmetric about zero, so the magnitude is rounded and
the sign is put back. -/
def ofWord (n : Int64) : Float :=
  if n < 0 then -(UInt64.ofNat n.toInt.natAbs).toFloat else n.toUInt64.toFloat

/-- The order of two numbers; there is none if one of them is not a number. -/
def compare? (x y : Float) : Option Ordering :=
  if x < y then some .lt else if y < x then some .gt else if x == y then some .eq else none

/-- The remainder of `x` divided by `y` with a quotient truncated toward zero, without rounding: over
a common exponent it is a remainder of integers. It has the sign of `x`. -/
def rem (x y : Float) : Float :=
  match view x, view y with
  | .nan, _ => nan
  | _, .nan => nan
  | .infinite _, _ => nan
  | .finite _, .infinite _ => x
  | .finite a, .finite b =>
      if b.mantissa = 0 then nan
      else
        let exponent := min a.exponent b.exponent
        let left := a.mantissa * Nat.pow 2 (a.exponent - exponent).toNat
        let right := b.mantissa * Nat.pow 2 (b.exponent - exponent).toNat
        ofParts ⟨a.negative, left % right, exponent⟩

end MiniLisp.Binary64
