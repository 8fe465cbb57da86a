import MiniLisp.Eval.Branch
import MiniLisp.Eval.Call
import MiniLisp.Eval.State
import MiniLisp.Operator.Binary
import MiniLisp.Operator.Variadic

/-!
Evaluation. One step evaluates the outermost form and leaves the forms inside it to a given
evaluator; `eval` ties the knot with fuel. Operands are evaluated from left to right and once. The
budget of a loop is the fuel at which it starts, so fuel bounds both the nesting and the length of an
evaluation.
-/

namespace MiniLisp

variable {ν : Type} [DecidableEq ν]

/-- Moves an integer up or down by a given amount. -/
def Direction.move? : Direction → Int64 → Int64 → Option Int64
  | up, n, amount => Word.add? n amount
  | down, n, amount => Word.sub? n amount

namespace Eval

/-- Evaluates expressions from left to right. -/
@[specialize] def all (rec : Expr ν → Eval ν Value) : List (Expr ν) → Eval ν (List Value)
  | [] => pure []
  | e :: rest => do
      let v ← rec e
      let vs ← all rec rest
      return v :: vs

/-- Executes statements in order, up to the first that returns. A statement whose `if` chose no
branch counts for nothing, and a body without other statements is `NIL`. -/
@[specialize] def body (rec : Expr ν → Eval ν Value) : List (Expr ν) → Value → Eval ν BodyResult
  | [], last => pure (.completed last)
  | stmt :: rest, last => do
      match ← resolve rec stmt with
      | none => body rec rest last
      | some (.ret e) => return .returned (← rec e)
      | some live => body rec rest (← rec live)

/-- An index has to be an integer. -/
@[specialize] def index (cx : Context ν) (rec : Expr ν → Eval ν Value) (e : Expr ν) : Eval ν Int64 := do
  let v ← rec e
  match v.int? with
  | some n => pure n
  | none => fail cx (.nonIntegerIndex v.typeName)

@[specialize] def place (cx : Context ν) (rec : Expr ν → Eval ν Value) : Target ν → Eval ν (Place ν)
  | .var x => pure (.var x)
  | .element x i => return .element x (← index cx rec i)

/-- Writes a given value, or the stored integer moved by it. -/
def update (cx : Context ν) (op : UpdateOp) (place : Place ν) (v : Value) : Eval ν Value :=
  match op with
  | .setf => writePlace cx place v
  | .move direction => do
      let current ← readPlace cx place
      let n ← ofExcept cx (Operand.integer op.symbol current)
      let amount ← ofExcept cx (Operand.integer op.symbol v)
      match direction.move? n amount with
      | some moved => writePlace cx place (.int moved)
      | none => fail cx (.integerOverflow op.symbol)

def bindName (cx : Context ν) (op : BindOp) (x : ν) (v : Value) : Eval ν Value :=
  match op with
  | .defvar => do
      define x v
      return v
  | .setq => do
      assign cx x v
      return v

/-- Repeats a body until it returns. -/
def forever (body : Eval ν BodyResult) : Nat → Eval ν Value
  | 0 => Run.exhausted
  | budget + 1 => do
      match ← body with
      | .returned v => return v
      | .completed _ => forever body budget

/-- Repeats a body with the variable bound to the counter, until the counter exceeds the last
number or the body returns. -/
def forRange (cx : Context ν) (x : ν) (last : Number) (body : Eval ν BodyResult) :
    Nat → Number → Eval ν Value
  | 0, _ => Run.exhausted
  | budget + 1, counter =>
      if counter.le last then do
        define x (.number counter)
        match ← body with
        | .returned v => return v
        | .completed _ =>
            let next ← ofExcept cx counter.increment
            forRange cx x last body budget next
      else return .nil

/-- Repeats a body a given number of times, with the variable bound to the number of times so far. -/
def times (x : ν) (body : Eval ν BodyResult) : Nat → Nat → Eval ν Value
  | 0, _ => return .nil
  | left + 1, done => do
      define x (.int (Int64.ofNat done))
      match ← body with
      | .returned v => return v
      | .completed _ => times x body left (done + 1)

@[specialize] def call (cx : Context ν) (rec : Expr ν → Eval ν Value) (f : ν) (args : List (Expr ν)) :
    Eval ν Value := do
  match cx.functions.get? f with
  | none => fail cx (.undefinedFunction (cx.label f))
  | some found =>
      let values ← all rec args
      ofExcept cx (found.fn.checkArity cx.label values.length)
      let result ← activate cx f (found.fn.arguments values) (body rec found.fn.body .nil)
      return result.value

@[specialize] def loopFor (cx : Context ν) (rec : Expr ν → Eval ν Value) (budget : Nat) (x : ν)
    (first last : Expr ν) (stmts : List (Expr ν)) : Eval ν Value := do
  let first ← rec first
  let last ← rec last
  let start ← ofExcept cx (Operand.number "LOOP FOR" first)
  let stop ← ofExcept cx (Operand.number "LOOP FOR" last)
  inNewScope (forRange cx x stop (body rec stmts .nil) budget start)

@[specialize] def dotimes (cx : Context ν) (rec : Expr ν → Eval ν Value) (x : ν) (count : Expr ν)
    (stmts : List (Expr ν)) : Eval ν Value := do
  let count ← rec count
  let n ← ofExcept cx (Operand.integer "DOTIMES" count)
  inNewScope (times x (body rec stmts .nil) n.toInt.toNat 0)

/-- Evaluates one form, its parts by `rec`. -/
@[specialize] def step (cx : Context ν) (rec : Expr ν → Eval ν Value) (budget : Nat) :
    Expr ν → Eval ν Value
  | .literal value => pure (.scalar value)
  | .var x => readPlace cx (.var x)
  | .element x i => do
      let n ← index cx rec i
      readPlace cx (.element x n)
  | .unary op operand => do
      let v ← rec operand
      unary cx op v
  | .binary op left right => do
      let a ← rec left
      let b ← rec right
      ofExcept cx (op.apply a b)
  | .variadic op operands => do
      let vs ← all rec operands
      ofExcept cx (op.apply vs)
  | .bind op x value => do
      let v ← rec value
      bindName cx op x v
  | .update op x value => do
      let v ← rec value
      update cx op (.var x) v
  | .updateElement op x i value => do
      let v ← rec value
      let n ← index cx rec i
      update cx op (.element x n) v
  | .ifThen cond yes => do
      let c ← rec cond
      if c.isTrue then rec yes else return .nil
  | .ifElse cond yes no => do
      let c ← rec cond
      if c.isTrue then rec yes else rec no
  | .loop stmts => forever (body rec stmts .nil) budget
  | .loopFor x first last stmts => loopFor cx rec budget x first last stmts
  | .dotimes x count stmts => dotimes cx rec x count stmts
  | .call f args => call cx rec f args
  | .ret value => rec value

end Eval

/-- Evaluates an expression with the given fuel. -/
def eval (cx : Context ν) : Nat → Expr ν → Eval ν Value
  | 0, _ => Run.exhausted
  | fuel + 1, e => Eval.step cx (eval cx fuel) fuel e

/-- Writes a value to a target, whose index is evaluated first. -/
def Eval.write (cx : Context ν) (fuel : Nat) (target : Target ν) (v : Value) : Eval ν Value := do
  let p ← place cx (MiniLisp.eval cx fuel) target
  writePlace cx p v

end MiniLisp
