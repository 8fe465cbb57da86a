import MiniLisp.Interpreter
import MiniLisp.Proofs.Act
import MiniLisp.Proofs.CallStack

/-!
Fuel is only a bound. An evaluation that ends with some fuel ends in the same way with more
(`eval_stable`), so an evaluation of an interpreter converges to one outcome at most
(`Interpreter.eval_unique`).
-/

namespace MiniLisp

variable {ν α : Type} [DecidableEq ν]

/-- The second computation ends as the first does, wherever that one ends. -/
def Run.Extends {σ ε : Type} (x y : Run σ ε α) : Prop := ∀ s, x s ≠ .exhausted → y s = x s

namespace Run.Extends

theorem bind {σ ε β : Type} {x y : Run σ ε α} {f g : α → Run σ ε β} (h : Extends x y)
    (hf : ∀ a, Extends (f a) (g a)) : Extends (x >>= f) (y >>= g) := by
  intro s done
  cases hx : x s with
  | value a t =>
      have hy : y s = .value a t := (h s (by rw [hx]; nofun)).trans hx
      rw [bind_of_value hx] at done
      rw [bind_of_value hx, bind_of_value hy]
      exact hf a t done
  | error e t =>
      have hy : y s = .error e t := (h s (by rw [hx]; nofun)).trans hx
      rw [bind_of_error hx, bind_of_error hy]
  | exhausted => exact absurd (bind_of_exhausted hx) done

omit [DecidableEq ν] in
theorem inNewScope {x y : Eval ν α} (h : Extends x y) :
    Extends (Eval.inNewScope x) (Eval.inNewScope y) := by
  intro s done
  rw [Eval.inNewScope_apply] at done
  rw [Eval.inNewScope_apply, Eval.inNewScope_apply, h _ (mt Outcome.exit_eq_exhausted.2 done)]

theorem activate {cx : Context ν} {f : ν} {arguments : List (ν × Value)} {x y : Eval ν α}
    (h : Extends x y) :
    Extends (Eval.activate cx f arguments x) (Eval.activate cx f arguments y) := by
  intro s done
  rcases Eval.activate_cases cx f arguments x s with ⟨limit, hlimit, full, refused⟩ | ⟨room, started⟩
  · rw [refused, Eval.activate_of_full cx f arguments y hlimit full]
  · rw [started] at done
    rw [started, Eval.activate_of_room cx f arguments y room,
      h _ (mt Outcome.exit_eq_exhausted.2 done)]

end Run.Extends

theorem Congruence.fuel (cx : Context ν) :
    Congruence cx cx Scoping.free fun _ {_} => Run.Extends :=
  .ofActs rfl rfl
    (fun _ _ done => absurd rfl done)
    (fun _ _ _ _ => rfl)
    Run.Extends.bind
    Run.Extends.inNewScope
    fun _ _ _ _ => Run.Extends.activate

/-- More fuel does not change an answer. -/
theorem eval_stable (cx : Context ν) {n m : Nat} (le : n ≤ m) (e : Expr ν) :
    Run.Extends (eval cx n e) (eval cx m e) :=
  (Congruence.fuel cx).eval le e (i := ()) (Scoping.free_admits _ _)

theorem write_stable (cx : Context ν) {n m : Nat} (le : n ≤ m) (target : Target ν) (v : Value) :
    Run.Extends (Eval.write cx n target v) (Eval.write cx m target v) :=
  (Congruence.fuel cx).write le target v (i := ()) (Scoping.free_admits _ _)

namespace Interpreter

variable {interp : Interpreter ν} {scope : Nat}

section Run

variable {x : Eval ν α}

omit [DecidableEq ν]

theorem run_of_value {a : α} {t : State ν} (h : x (interp.load scope) = .value a t) :
    interp.run scope x = .value a (interp.save scope t) := by rw [run, h]

theorem run_of_error {e : EvalError} {t : State ν} (h : x (interp.load scope) = .error e t) :
    interp.run scope x = .error e (interp.save scope t) := by rw [run, h]

theorem run_eq_error {e : EvalError} {after : Interpreter ν} :
    interp.run scope x = .error e after ↔
      ∃ t, x (interp.load scope) = .error e t ∧ interp.save scope t = after := by
  unfold run
  cases x (interp.load scope) <;> simp [and_assoc]

theorem run_eq_exhausted :
    interp.run scope x = .exhausted ↔ x (interp.load scope) = .exhausted := by
  unfold run
  cases x (interp.load scope) <;> simp

theorem after?_run :
    (interp.run scope x).after? = (x (interp.load scope)).after?.map (interp.save scope) := by
  unfold run
  cases x (interp.load scope) <;> rfl

end Run

omit [DecidableEq ν] in
theorem run_stable {x y : Eval ν α} (h : Run.Extends x y)
    (done : interp.run scope x ≠ .exhausted) : interp.run scope y = interp.run scope x := by
  rw [run, run, h _ (mt run_eq_exhausted.2 done)]

omit [DecidableEq ν] in
/-- Computations that more fuel does not change have one outcome at most. -/
theorem run_unique {x : Nat → Eval ν α} (stable : ∀ n m, n ≤ m → Run.Extends (x n) (x m))
    {out out' : Outcome (Interpreter ν) EvalError α}
    (h : Outcome.Converges (fun n => interp.run scope (x n)) out)
    (h' : Outcome.Converges (fun n => interp.run scope (x n)) out') : out = out' :=
  h.unique (fun n m le => run_stable (stable n m le)) h'

/-- An evaluation has one outcome at most, whatever the fuel. -/
theorem eval_unique (label : ν → String) (e : Expr ν)
    {out out' : Outcome (Interpreter ν) EvalError Value}
    (h : Outcome.Converges (interp.eval label · scope e) out)
    (h' : Outcome.Converges (interp.eval label · scope e) out') : out = out' :=
  run_unique (fun _ _ le => eval_stable _ le e) h h'

end Interpreter

end MiniLisp
