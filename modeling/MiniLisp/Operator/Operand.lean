import MiniLisp.Error
import MiniLisp.Value.Basic

/-!
Operand checks. An operator that wants numbers or integers refuses the first operand of another type
and names that type.
-/

namespace MiniLisp.Operand

def number (symbol : String) (v : Value) : Except Cause Number :=
  match v.number? with
  | some n => .ok n
  | none => .error (.typeMismatch symbol "number" v.typeName)

def integer (symbol : String) (v : Value) : Except Cause Int64 :=
  match v.int? with
  | some n => .ok n
  | none => .error (.typeMismatch symbol "integer" v.typeName)

def numbers (symbol : String) (vs : List Value) : Except Cause (List Number) :=
  vs.mapM (number symbol)

def integers (symbol : String) (vs : List Value) : Except Cause (List Int64) :=
  vs.mapM (integer symbol)

@[simp] theorem number_number (symbol : String) (n : Number) :
    number symbol (.number n) = .ok n := rfl

@[simp] theorem integer_int (symbol : String) (n : Int64) :
    integer symbol (.int n) = .ok n := rfl

theorem number_eq_ok {symbol : String} {v : Value} {n : Number} :
    number symbol v = .ok n ↔ v = .number n := by
  obtain ⟨_ | _ | _ | _⟩ | _ := v <;> simp [number, Value.number?, Scalar.number?]

theorem integer_eq_ok {symbol : String} {v : Value} {n : Int64} :
    integer symbol v = .ok n ↔ v = .int n := by
  obtain ⟨_ | _ | ⟨_ | _⟩ | _⟩ | _ := v <;> simp [integer, Value.int?, Scalar.int?]

end MiniLisp.Operand
