import MiniLisp.Operator.Basic
import MiniLisp.Value.Basic

/-!
Abstract syntax over a type of names: names are strings where a program is written down and interned
names where it is run. An `if` without an alternative is a form of its own, since as a statement it
differs from one whose alternative is `NIL`.
-/

namespace MiniLisp

inductive Expr (ν : Type) where
  | literal (value : Scalar)
  | var (x : ν)
  | element (x : ν) (index : Expr ν)
  | unary (op : UnaryOp) (operand : Expr ν)
  | binary (op : BinaryOp) (left right : Expr ν)
  | variadic (op : VariadicOp) (operands : List (Expr ν))
  | bind (op : BindOp) (x : ν) (value : Expr ν)
  | update (op : UpdateOp) (x : ν) (value : Expr ν)
  | updateElement (op : UpdateOp) (x : ν) (index value : Expr ν)
  | ifThen (cond yes : Expr ν)
  | ifElse (cond yes no : Expr ν)
  | loop (body : List (Expr ν))
  | loopFor (x : ν) (first last : Expr ν) (body : List (Expr ν))
  | dotimes (x : ν) (count : Expr ν) (body : List (Expr ν))
  | call (f : ν) (args : List (Expr ν))
  | ret (value : Expr ν)

/-- What an assignment writes to: a variable, or the element of an array at a computed index. -/
inductive Target (ν : Type) where
  | var (x : ν)
  | element (x : ν) (index : Expr ν)

namespace Target

/-- The expression that reads the target. -/
def read {ν : Type} : Target ν → Expr ν
  | var x => .var x
  | element x index => .element x index

/-- The expression that updates the target. -/
def update {ν : Type} (op : UpdateOp) (value : Expr ν) : Target ν → Expr ν
  | var x => .update op x value
  | element x index => .updateElement op x index value

end Target

structure FunctionDef (ν : Type) where
  name : ν
  params : List ν
  body : List (Expr ν)

/-- A top-level form. -/
inductive Form (ν : Type) where
  | expr (e : Expr ν)
  | function (fn : FunctionDef ν)

end MiniLisp
