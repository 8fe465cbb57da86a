import MiniLisp.Operator.Basic
import MiniLisp.Operator.Operand

/-!
Operators on two operands: comparisons, remainders and the complement of a bitwise or. The left
operand is checked before the right one.
-/

namespace MiniLisp

/-- Whether a comparison holds of two numbers in this order; none does where there is no order. -/
def Comparison.holds : Comparison → Option Ordering → Bool
  | _, none => false
  | lt, some o => o.isLT
  | le, some o => o.isLE
  | gt, some o => o.isGT
  | ge, some o => o.isGE

namespace Number

/-- The remainder of a truncating division: of integers if both operands are, else of floats. -/
def remainder (symbol : String) : Number → Number → Except Cause Number
  | int x, int y =>
      if y = 0 then .error .divisionByZero
      else match Word.rem? x y with
        | some r => .ok (int r)
        | none => .error (.integerOverflow symbol)
  | a, b => .ok (float (Binary64.rem a.toFloat b.toFloat))

/-- Moves a number up by one. -/
def increment : Number → Except Cause Number
  | int n =>
      match Word.add? n 1 with
      | some m => .ok (int m)
      | none => .error (.integerOverflow "increment")
  | float x => .ok (float (x + 1.0))

/-- Moves a number down by one. -/
def decrement : Number → Except Cause Number
  | int n =>
      match Word.sub? n 1 with
      | some m => .ok (int m)
      | none => .error (.integerOverflow "decrement")
  | float x => .ok (float (x - 1.0))

end Number

def BinaryOp.apply (op : BinaryOp) (left right : Value) : Except Cause Value :=
  match op with
  | compare test => do
      let a ← Operand.number op.symbol left
      let b ← Operand.number op.symbol right
      return .ofBool (test.holds (a.compare b))
  | mod | rem => do
      let a ← Operand.number op.symbol left
      let b ← Operand.number op.symbol right
      return .number (← a.remainder op.symbol b)
  | logNor => do
      let a ← Operand.integer op.symbol left
      let b ← Operand.integer op.symbol right
      return .int (~~~(a ||| b))

namespace Scalar

/-- The scalar as a number, for an operator of the given name. -/
def asNumber (operator : String) (s : Scalar) : Except Cause Number :=
  match s.number? with
  | some n => .ok n
  | none => .error (.typeMismatch operator "number" s.typeName)

/-- The order test that bounds a loop. -/
def lt (a b : Scalar) : Except Cause Bool := do
  let x ← a.asNumber "<"
  let y ← b.asNumber "<"
  return x.lt y

def le (a b : Scalar) : Except Cause Bool := do
  let x ← a.asNumber "<="
  let y ← b.asNumber "<="
  return x.le y

def increment (s : Scalar) : Except Cause Scalar := do
  let n ← s.asNumber "increment"
  return .number (← n.increment)

def decrement (s : Scalar) : Except Cause Scalar := do
  let n ← s.asNumber "decrement"
  return .number (← n.decrement)

end Scalar

end MiniLisp
