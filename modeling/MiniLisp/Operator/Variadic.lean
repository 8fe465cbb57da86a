import MiniLisp.Operator.Basic
import MiniLisp.Operator.Operand

/-!
Operators on one operand or more. All operands are checked before anything is computed, so a wrong
type is reported even where an earlier operand would overflow or divide by zero. `AND` and `OR` see all
operands evaluated. The folds run from the left with the first operand as the start.
-/

namespace MiniLisp

namespace Connective

/-- `AND` gives the last operand unless one is false; `OR` gives the first true operand. -/
def apply (op : Connective) (first : Value) (rest : List Value) : Value :=
  match op with
  | and => if (first :: rest).any Value.isNil then .nil else (first :: rest).getLast (by simp)
  | or => ((first :: rest).find? Value.isTrue).getD .nil

end Connective

namespace Arithmetic

def symbol (op : Arithmetic) : String := (VariadicOp.arithmetic op).symbol

/-- One step on integers. Division truncates toward zero. -/
def onInts (op : Arithmetic) (a b : Int64) : Except Cause Int64 :=
  let checked (r : Option Int64) : Except Cause Int64 :=
    match r with
    | some n => .ok n
    | none => .error (.integerOverflow op.symbol)
  match op with
  | add => checked (Word.add? a b)
  | sub => checked (Word.sub? a b)
  | mul => checked (Word.mul? a b)
  | div => if b = 0 then .error .divisionByZero else checked (Word.quot? a b)

def onFloats (op : Arithmetic) (x y : Float) : Float :=
  match op with
  | add => x + y
  | sub => x - y
  | mul => x * y
  | div => x / y

/-- Integers stay integers; one float among the operands makes all of them floats. -/
def apply (op : Arithmetic) (first : Number) (rest : List Number) : Except Cause Number :=
  match first.int?, rest.mapM Number.int? with
  | some a, some ns => return .int (← ns.foldlM op.onInts a)
  | _, _ => .ok (.float (rest.foldl (fun x n => op.onFloats x n.toFloat) first.toFloat))

end Arithmetic

namespace Extremum

def wanted : Extremum → Ordering
  | max => .gt
  | min => .lt

/-- The candidate replaces the best operand so far only if it is strictly better. -/
def pick (op : Extremum) (best candidate : Number) : Number :=
  if candidate.compare best = some op.wanted then candidate else best

def apply (op : Extremum) (first : Number) (rest : List Number) : Number :=
  rest.foldl op.pick first

end Extremum

namespace Bitwise

def onInts (op : Bitwise) (a b : Int64) : Int64 :=
  match op with
  | and => a &&& b
  | ior => a ||| b
  | xor => a ^^^ b
  | eqv => ~~~(a ^^^ b)

def apply (op : Bitwise) (first : Int64) (rest : List Int64) : Int64 :=
  rest.foldl op.onInts first

end Bitwise

/-- Every operand has the tag and the payload of the first. -/
def Number.allSame (first : Number) (rest : List Number) : Bool :=
  rest.all fun n => n.same first

def VariadicOp.apply (op : VariadicOp) : List Value → Except Cause Value
  | [] => .error (.missingOperands op.symbol)
  | first :: rest =>
      match op with
      | connective c => .ok (c.apply first rest)
      | equal => do
          let a ← Operand.number op.symbol first
          let ns ← Operand.numbers op.symbol rest
          return .ofBool (a.allSame ns)
      | notEqual => do
          let a ← Operand.number op.symbol first
          let ns ← Operand.numbers op.symbol rest
          return .ofBool (!a.allSame ns)
      | extremum e => do
          let a ← Operand.number op.symbol first
          let ns ← Operand.numbers op.symbol rest
          return .number (e.apply a ns)
      | arithmetic o => do
          let a ← Operand.number op.symbol first
          let ns ← Operand.numbers op.symbol rest
          return .number (← o.apply a ns)
      | bitwise b => do
          let a ← Operand.integer op.symbol first
          let ns ← Operand.integers op.symbol rest
          return .int (b.apply a ns)

end MiniLisp
