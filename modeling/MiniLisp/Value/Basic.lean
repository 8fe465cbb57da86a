import MiniLisp.Number.Word
import MiniLisp.Number.Binary64

/-!
Values: a number is an integer or a float, a scalar is a number, a truth value or a text, and a value
is a scalar or a flat array of scalars. `NIL` is the only false value. Equality as the language sees it
(`same`) compares tag and payload, and two floats by the order of floats, so that a value holding a
float that is not a number differs from itself.
-/

namespace MiniLisp

inductive Number where
  | int (n : Int64)
  | float (x : Float)
  deriving DecidableEq

namespace Number

/-- The float that stands for a number in mixed arithmetic. -/
def toFloat : Number → Float
  | int n => Binary64.ofWord n
  | float x => x

def isFloat : Number → Bool
  | int _ => false
  | float _ => true

def int? : Number → Option Int64
  | int n => some n
  | float _ => none

/-- Two integers are compared exactly; any other pair is compared as floats. -/
def compare : Number → Number → Option Ordering
  | int a, int b => some (if a < b then .lt else if b < a then .gt else .eq)
  | a, b => Binary64.compare? a.toFloat b.toFloat

def lt (a b : Number) : Bool := a.compare b = some .lt

def le (a b : Number) : Bool := a.compare b = some .lt || a.compare b = some .eq

def same : Number → Number → Bool
  | int a, int b => a == b
  | float x, float y => x == y
  | _, _ => false

end Number

inductive Scalar where
  | nil
  | t
  | number (n : Number)
  | text (s : String)
  deriving DecidableEq

namespace Scalar

@[match_pattern] abbrev int (n : Int64) : Scalar := number (.int n)

@[match_pattern] abbrev float (x : Float) : Scalar := number (.float x)

def ofBool (b : Bool) : Scalar := if b then t else nil

def isNil : Scalar → Bool
  | nil => true
  | _ => false

def isInt : Scalar → Bool
  | int _ => true
  | _ => false

def isFloat : Scalar → Bool
  | float _ => true
  | _ => false

def isNumeric : Scalar → Bool
  | number _ => true
  | _ => false

def int? : Scalar → Option Int64
  | int n => some n
  | _ => none

def number? : Scalar → Option Number
  | number n => some n
  | _ => none

def typeName : Scalar → String
  | nil => "NIL"
  | t => "T"
  | int _ => "integer"
  | float _ => "float"
  | text _ => "string"

def same : Scalar → Scalar → Bool
  | nil, nil => true
  | t, t => true
  | number a, number b => a.same b
  | text a, text b => a == b
  | _, _ => false

end Scalar

inductive Value where
  | scalar (s : Scalar)
  | array (elements : Array Scalar)
  deriving DecidableEq

namespace Value

@[match_pattern] abbrev nil : Value := scalar .nil

@[match_pattern] abbrev t : Value := scalar .t

@[match_pattern] abbrev number (n : Number) : Value := scalar (.number n)

@[match_pattern] abbrev int (n : Int64) : Value := scalar (.int n)

@[match_pattern] abbrev float (x : Float) : Value := scalar (.float x)

@[match_pattern] abbrev text (s : String) : Value := scalar (.text s)

def ofBool (b : Bool) : Value := scalar (.ofBool b)

def isArray : Value → Bool
  | array _ => true
  | scalar _ => false

def isNil : Value → Bool
  | nil => true
  | _ => false

theorem isNil_iff {v : Value} : v.isNil ↔ v = nil := by
  constructor
  · intro h
    unfold isNil at h
    split at h
    · rfl
    · cases h
  · rintro rfl
    rfl

def isTrue (v : Value) : Bool := !v.isNil

theorem isTrue_iff {v : Value} : v.isTrue ↔ v ≠ nil := by
  simp [isTrue, ← isNil_iff]

def scalar? : Value → Option Scalar
  | scalar s => some s
  | array _ => none

def int? : Value → Option Int64
  | scalar s => s.int?
  | array _ => none

def number? : Value → Option Number
  | scalar s => s.number?
  | array _ => none

def typeName : Value → String
  | scalar s => s.typeName
  | array _ => "array"

def same : Value → Value → Bool
  | scalar a, scalar b => a.same b
  | array a, array b => a.size == b.size && (a.zip b).all fun pair => pair.1.same pair.2
  | _, _ => false

end Value

end MiniLisp
