import MiniLisp.CallStack
import MiniLisp.Eval.Outcome
import MiniLisp.FunctionTable
import MiniLisp.Operator.Unary
import MiniLisp.Printer
import MiniLisp.Scope.Place

/-!
What an evaluation reads and changes. The state is the chain of scopes in view, the active calls and
the printer; the function table, the names' texts and the way in which errors get their backtraces
do not change during an evaluation.
-/

namespace MiniLisp

variable {ν α : Type}

/-- When an error gets the backtrace of the active calls: as it leaves a call, or where it is first
raised. -/
inductive Stamping where
  | onExit
  | onRaise
  deriving DecidableEq

structure Context (ν : Type) where
  functions : FunctionTable ν
  /-- The text of a name, for messages. -/
  label : ν → String
  stamping : Stamping

structure State (ν : Type) where
  scopes : Chain ν
  stack : CallStack ν
  printer : Printer

abbrev Eval (ν : Type) : Type → Type := Run (State ν) EvalError

namespace Context

/-- The error that a cause raises. -/
def raise (cx : Context ν) (stack : CallStack ν) (cause : Cause) : EvalError :=
  match cx.stamping with
  | .onExit => .ofCause cause
  | .onRaise => stack.stamp cx.label cause

/-- An error as it leaves a call that is still active. -/
def leave (cx : Context ν) (stack : CallStack ν) (error : EvalError) : EvalError :=
  match cx.stamping with
  | .onExit => stack.attach cx.label error
  | .onRaise => error

end Context

namespace Eval

def fail (cx : Context ν) (cause : Cause) : Eval ν α := fun s =>
  .error (cx.raise s.stack cause) s

/-- The result of a pure operation. -/
@[always_inline, inline] def ofExcept (cx : Context ν) (r : Except Cause α) : Eval ν α := fun s =>
  match r with
  | .ok a => .value a s
  | .error cause => .error (cx.raise s.stack cause) s

/-- Applies an operator on one operand, which may print. -/
def unary (cx : Context ν) (op : UnaryOp) (v : Value) : Eval ν Value := fun s =>
  let (r, printer) := op.apply v s.printer
  ofExcept cx r { s with printer }

variable [DecidableEq ν]

def readPlace (cx : Context ν) (place : Place ν) : Eval ν Value := fun s =>
  ofExcept cx (place.read cx.label s.scopes) s

/-- Writes a value and yields it. -/
def writePlace (cx : Context ν) (place : Place ν) (v : Value) : Eval ν Value := fun s =>
  let (r, scopes) := place.write cx.label v s.scopes
  ofExcept cx r { s with scopes }

/-- Binds a name in the current scope. -/
def define (x : ν) (v : Value) : Eval ν Unit := fun s =>
  .value () { s with scopes := s.scopes.define x v }

/-- Replaces the value of a bound name. -/
def assign (cx : Context ν) (x : ν) (v : Value) : Eval ν Unit := fun s =>
  match s.scopes.assign? x v with
  | some scopes => .value () { s with scopes }
  | none => .error (cx.raise s.stack (.assignToUndefined (cx.label x))) s

/-- Runs a computation in a new scope below the current one. -/
@[always_inline, inline] def inNewScope (run : Eval ν α) : Eval ν α := fun s =>
  match run { s with scopes := s.scopes.enter } with
  | .value a after => .value a { after with scopes := after.scopes.leave }
  | .error e after => .error e { after with scopes := after.scopes.leave }
  | .exhausted => .exhausted

end Eval

namespace State

/-- The state in which the body of a called function starts: its parameters are bound in a new scope
below the root, where the caller's other scopes are out of reach. -/
def enterCall [DecidableEq ν] (s : State ν) (stack : CallStack ν)
    (arguments : List (ν × Value)) : State ν :=
  { s with
    scopes := arguments.foldl (fun c b => c.define b.1 b.2) (.child ∅ (.root s.scopes.rootBindings))
    stack }

/-- The caller's state after the call: its own scopes over the root that the call left. -/
def leaveCall (caller after : State ν) : State ν :=
  { after with
    scopes := caller.scopes.withRoot after.scopes.rootBindings
    stack := after.stack.pop }

end State

/-- Runs the body of a function as a call. An error passes out while the call is still active. -/
@[always_inline, inline] def Eval.activate [DecidableEq ν] (cx : Context ν) (f : ν)
    (arguments : List (ν × Value)) (body : Eval ν α) : Eval ν α := fun s =>
  match s.stack.push f with
  | .error cause => .error (cx.raise s.stack cause) s
  | .ok stack =>
      match body (s.enterCall stack arguments) with
      | .value a after => .value a (s.leaveCall after)
      | .error e after => .error (cx.leave after.stack e) (s.leaveCall after)
      | .exhausted => .exhausted

end MiniLisp
