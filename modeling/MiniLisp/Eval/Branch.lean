import MiniLisp.Eval.Outcome
import MiniLisp.Syntax.Basic

/-!
Choosing branches. A statement is resolved before it is executed: as long as it is an `if`, its
condition is evaluated and the chosen branch takes its place. Only conditions are evaluated on the way.
Main statements: resolving goes on with the selected branch (`resolve_ifThen`, `resolve_ifElse`).
-/

namespace MiniLisp

variable {ν σ ε α : Type}

/-- The branch that a condition selects, if there is one. -/
def selectBranch (cond : Value) (yes : α) (no : Option α) : Option α :=
  if cond.isTrue then some yes else no

def Expr.isConditional : Expr ν → Bool
  | .ifThen _ _ => true
  | .ifElse _ _ _ => true
  | _ => false

/-- The statement left when every `if` on the path has chosen; none if the last one had no branch to
choose. -/
def resolve (test : Expr ν → Run σ ε Value) : Expr ν → Run σ ε (Option (Expr ν))
  | .ifThen cond yes => do
      let v ← test cond
      if v.isTrue then resolve test yes else pure none
  | .ifElse cond yes no => do
      let v ← test cond
      if v.isTrue then resolve test yes else resolve test no
  | stmt => pure (some stmt)

theorem resolve_ifThen (test : Expr ν → Run σ ε Value) (cond yes : Expr ν) :
    resolve test (.ifThen cond yes) =
      (test cond >>= fun v =>
        (selectBranch v yes none).elim (pure none) (resolve test)) := by
  simp only [resolve]
  congr 1
  funext v
  cases h : v.isTrue <;> simp [selectBranch, h]

theorem resolve_ifElse (test : Expr ν → Run σ ε Value) (cond yes no : Expr ν) :
    resolve test (.ifElse cond yes no) =
      (test cond >>= fun v =>
        (selectBranch v yes (some no)).elim (pure none) (resolve test)) := by
  simp only [resolve]
  congr 1
  funext v
  cases h : v.isTrue <;> simp [selectBranch, h]

/-- How a list of statements ended: with a value returned from within, or with the value of the last
statement. -/
inductive BodyResult where
  | returned (v : Value)
  | completed (v : Value)
  deriving DecidableEq

def BodyResult.value : BodyResult → Value
  | returned v => v
  | completed v => v

end MiniLisp
