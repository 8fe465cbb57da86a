import Mathlib.Order.Filter.AtTopBot.Basic
import MiniLisp.Eval.Basic

/-!
Evaluation one step and one statement at a time. What holds of a step with all large enough fuels
holds of the evaluation with all large enough fuels (`eval_eventually`). What a body does with a
statement is a computation of its own: it skips the statement, returns from it or completes it
(`Eval.statement`), and goes on after a statement that does not return (`Eval.body_cons`).
-/

open Filter

namespace MiniLisp

variable {ν : Type}

theorem eval_eventually [DecidableEq ν] {cx : Context ν} {e : Expr ν} {p : Eval ν Value → Prop}
    (h : ∀ᶠ fuel in atTop, p (Eval.step cx (eval cx fuel) fuel e)) :
    ∀ᶠ fuel in atTop, p (eval cx fuel e) := by
  rw [← map_add_atTop_eq_nat 1, eventually_map]
  exact h

/-- Neither an `if` nor a return: as a statement, the expression is evaluated as it is. -/
def Expr.isPlain : Expr ν → Bool
  | .ifThen _ _ => false
  | .ifElse _ _ _ => false
  | .ret _ => false
  | _ => true

namespace Eval

/-- Executes one statement; there is no result if its `if` chose no branch. -/
def statement (rec : Expr ν → Eval ν Value) (stmt : Expr ν) : Eval ν (Option BodyResult) := do
  match ← resolve rec stmt with
  | none => return none
  | some (.ret e) => return some (.returned (← rec e))
  | some live => return some (.completed (← rec live))

/-- What a body does after a statement. -/
def proceed (rest : Value → Eval ν BodyResult) (last : Value) :
    Option BodyResult → Eval ν BodyResult
  | none => rest last
  | some (.returned v) => pure (.returned v)
  | some (.completed v) => rest v

variable (rec : Expr ν → Eval ν Value)

theorem body_cons (stmt : Expr ν) (stmts : List (Expr ν)) (last : Value) :
    body rec (stmt :: stmts) last = statement rec stmt >>= proceed (body rec stmts) last := by
  simp only [body, statement, bind_assoc]
  congr 1
  funext live
  cases live with
  | none => rfl
  | some live => cases live <;> simp [proceed]

theorem statement_ifThen (cond yes : Expr ν) :
    statement rec (.ifThen cond yes) =
      (rec cond >>= fun v => if v.isTrue then statement rec yes else pure none) := by
  simp only [statement, resolve, bind_assoc]
  congr 1
  funext v
  cases v.isTrue <;> rfl

theorem statement_ifElse (cond yes no : Expr ν) :
    statement rec (.ifElse cond yes no) =
      (rec cond >>= fun v => if v.isTrue then statement rec yes else statement rec no) := by
  simp only [statement, resolve, bind_assoc]
  congr 1
  funext v
  cases v.isTrue <;> rfl

theorem statement_ret (e : Expr ν) :
    statement rec (.ret e) = (rec e >>= fun v => pure (some (.returned v))) := rfl

theorem statement_of_plain {stmt : Expr ν} (h : stmt.isPlain) :
    statement rec stmt = (rec stmt >>= fun v => pure (some (.completed v))) := by
  cases stmt with
  | ifThen cond yes => cases h
  | ifElse cond yes no => cases h
  | ret e => cases h
  | _ => rfl

end Eval

end MiniLisp
