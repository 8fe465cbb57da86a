/-!
Errors of evaluation: what went wrong, and the calls that were active. A cause has one message. A
backtrace lists the active calls from the innermost out, and the first one an error is given stays.
-/

namespace MiniLisp

inductive Cause where
  | undefinedVariable (name : String)
  | undefinedFunction (name : String)
  | assignToUndefined (name : String)
  | tooFewArguments (name : String) (expected got : Nat)
  | recursionLimit (limit : Nat)
  | notAnArray (name : String)
  | nonIntegerIndex (got : String)
  | indexOutOfRange (index : Int64) (size : Nat)
  | cannotAssignArrayElement
  | arrayTooLarge (size : Nat)
  | typeMismatch (operator expected got : String)
  | missingOperands (operator : String)
  | divisionByZero
  | integerOverflow (operation : String)
  deriving DecidableEq

def Cause.message : Cause → String
  | undefinedVariable name => s!"undefined variable: {name}"
  | undefinedFunction name => s!"undefined function: {name}"
  | assignToUndefined name => s!"cannot assign to undefined variable: {name}"
  | tooFewArguments name expected got => s!"{name} expects {expected} arguments, got {got}"
  | recursionLimit limit => s!"maximum recursion depth exceeded (limit: {limit})"
  | notAnArray name => s!"variable {name} is not an array"
  | nonIntegerIndex got => s!"array index must be an integer, got {got}"
  | indexOutOfRange index size => s!"index {index.toInt} out of range for array of size {size}"
  | cannotAssignArrayElement => "cannot store an array in an array element"
  | arrayTooLarge size => s!"array of size {size} is too large to allocate"
  | typeMismatch operator expected got =>
      s!"type mismatch in {operator}: expected {expected}, got {got}"
  | missingOperands operator => s!"{operator} requires at least one operand"
  | divisionByZero => "division by zero"
  | integerOverflow operation => s!"integer overflow in {operation}"

/-- The names of the active calls, innermost first. -/
structure Backtrace where
  frames : List String
  deriving DecidableEq

namespace Backtrace

/-- One numbered line for each call under a heading; nothing for no calls. -/
def toText (trace : Backtrace) : String :=
  if trace.frames.isEmpty then ""
  else trace.frames.zipIdx.foldl (fun text (frame, i) => text ++ s!"  {i}: {frame}\n")
    "call backtrace:\n"

end Backtrace

structure EvalError where
  cause : Cause
  backtrace : Option Backtrace
  deriving DecidableEq

namespace EvalError

def ofCause (cause : Cause) : EvalError := ⟨cause, none⟩

/-- Gives the error a backtrace unless it has one. -/
def withBacktrace (error : EvalError) (trace : Backtrace) : EvalError :=
  match error.backtrace with
  | some _ => error
  | none => { error with backtrace := some trace }

theorem withBacktrace_withBacktrace (error : EvalError) (first later : Backtrace) :
    (error.withBacktrace first).withBacktrace later = error.withBacktrace first := by
  obtain ⟨cause, _ | trace⟩ := error <;> rfl

end EvalError

end MiniLisp
