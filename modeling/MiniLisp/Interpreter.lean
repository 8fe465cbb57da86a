import MiniLisp.Eval.Basic
import MiniLisp.Scope.Store

/-!
An interpreter: the scopes of a program with their one table of functions, the active calls and the
printer. Evaluating under a scope runs on the chain of that scope and puts the chain back. Names get
their texts from a labelling that may know more names at each use.
-/

namespace MiniLisp

variable {ν α : Type} [DecidableEq ν]

structure Interpreter (ν : Type) where
  store : Store ν
  functions : FunctionTable ν
  stack : CallStack ν
  printer : Printer

namespace Interpreter

/-- A fresh interpreter with an optional limit on the number of active calls. -/
def new (limit : Option Nat) (printer : Printer) : Interpreter ν :=
  ⟨Store.new, FunctionTable.new, CallStack.new limit, printer⟩

/-- The interpreter that prints to standard output and has no limit. -/
def default : Interpreter ν := new none (.stdout "")

/-- The number of the root scope. -/
def root : Nat := 0

/-- The context in which expressions are evaluated. -/
def context (label : ν → String) (interp : Interpreter ν) : Context ν :=
  ⟨interp.functions, label, .onExit⟩

/-- The state in which an evaluation under a scope starts. -/
def load (interp : Interpreter ν) (scope : Nat) : State ν :=
  ⟨interp.store.view scope, interp.stack, interp.printer⟩

/-- The interpreter after an evaluation under a scope. -/
def save (interp : Interpreter ν) (scope : Nat) (after : State ν) : Interpreter ν :=
  { interp with
    store := interp.store.commit scope after.scopes
    stack := after.stack
    printer := after.printer }

/-- Runs a computation under a scope. -/
def run (interp : Interpreter ν) (scope : Nat) (act : Eval ν α) :
    Outcome (Interpreter ν) EvalError α :=
  match act (interp.load scope) with
  | .value a after => .value a (interp.save scope after)
  | .error e after => .error e (interp.save scope after)
  | .exhausted => .exhausted

def eval (label : ν → String) (fuel : Nat) (interp : Interpreter ν) (scope : Nat) (e : Expr ν) :
    Outcome (Interpreter ν) EvalError Value :=
  interp.run scope (MiniLisp.eval (interp.context label) fuel e)

/-- Writes a value to a target, whose index is evaluated first. -/
def write (label : ν → String) (fuel : Nat) (interp : Interpreter ν) (scope : Nat)
    (target : Target ν) (v : Value) : Outcome (Interpreter ν) EvalError Value :=
  interp.run scope (Eval.write (interp.context label) fuel target v)

/-- Executes a top-level form under the root: a definition has no value. -/
def execute (label : ν → String) (fuel : Nat) (interp : Interpreter ν) :
    Form ν → Outcome (Interpreter ν) EvalError (Option Value)
  | .expr e =>
      match interp.eval label fuel root e with
      | .value v after => .value (some v) after
      | .error err after => .error err after
      | .exhausted => .exhausted
  | .function fn => .value none { interp with functions := (interp.functions.define fn).2 }

/-- What a name means under a scope. -/
def lookup (interp : Interpreter ν) (scope : Nat) (x : ν) : Option Value :=
  (interp.store.view scope).lookup x

/-- Binds a name in a scope. -/
def define (interp : Interpreter ν) (scope : Nat) (x : ν) (v : Value) : Interpreter ν :=
  { interp with store := interp.store.commit scope ((interp.store.view scope).define x v) }

end Interpreter

end MiniLisp
