import MiniLisp.Error
import MiniLisp.Syntax.Basic

/-!
Matching arguments with parameters. There must be an argument for every parameter; further arguments
are ignored.
-/

namespace MiniLisp

variable {ν : Type}

namespace FunctionDef

def checkArity (label : ν → String) (fn : FunctionDef ν) (got : Nat) : Except Cause Unit :=
  if got < fn.params.length then
    .error (.tooFewArguments (label fn.name) fn.params.length got)
  else .ok ()

/-- The parameters with their arguments, in order. -/
def arguments (fn : FunctionDef ν) (values : List Value) : List (ν × Value) :=
  fn.params.zip values

end FunctionDef

end MiniLisp
