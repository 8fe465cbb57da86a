import MiniLisp.Proofs.Balance
import MiniLisp.Proofs.Footprint

/-!
The limit of active calls is sharp and otherwise invisible. An evaluation that ends without a limit
needs a certain number of calls: with that limit or a higher one it ends in the same way, and with
every lower limit it fails for lack of calls (`Interpreter.limit_sharp`).
-/

namespace MiniLisp

variable {ν α β : Type}

/-- The state with a limit on the number of active calls. -/
def State.limited (s : State ν) (m : Nat) : State ν :=
  { s with stack := { s.stack with limit := some m } }

theorem State.leaveCall_limited [DecidableEq ν] (s after : State ν) (m : Nat) :
    (s.limited m).leaveCall (after.limited m) = (s.leaveCall after).limited m := by
  unfold leaveCall limited CallStack.pop
  dsimp only
  cases after.stack.frames <;> rfl

/-- The outcome is that a call was refused for the limit. -/
def Outcome.HitsLimit {σ : Type} (m : Nat) (out : Outcome σ EvalError α) : Prop :=
  ∃ e after, out = .error e after ∧ e.cause = .recursionLimit m

namespace Run

/-- The number of calls that a computation needs from a state. If the limit is not below it, the
computation ends as it does without one; if it is, but still allows the calls that are active, the
computation hits it. -/
structure Needs (x : Eval ν α) (s : State ν) (calls : Nat) : Prop where
  value : ∀ m, calls ≤ m → ∀ a t, x s = .value a t → x (s.limited m) = .value a (t.limited m)
  error : ∀ m, calls ≤ m → ∀ e t, x s = .error e t → x (s.limited m) = .error e (t.limited m)
  hits : ∀ m, m < calls → s.stack.depth ≤ m → Outcome.HitsLimit m (x (s.limited m))

/-- Wherever the computation ends without a limit, it needs some number of calls. -/
structure Sharp (x : Eval ν α) : Prop where
  balanced : Balanced x
  needs : ∀ s, s.stack.limit = none → x s ≠ .exhausted → ∃ calls, Needs x s calls

namespace Sharp

variable {x : Eval ν α}

theorem exhausted : Sharp (Run.exhausted : Eval ν α) :=
  ⟨.exhausted, fun _ _ done => absurd rfl done⟩

theorem act (cx : Context ν) (f : Chain ν → Printer → Except Cause α × Chain ν × Printer) :
    Sharp (Eval.act cx f) := by
  have never : ∀ {x : Eval ν α} {s : State ν} m, m < 0 → s.stack.depth ≤ m →
      Outcome.HitsLimit m (x (s.limited m)) := fun m lt => absurd lt m.not_lt_zero
  refine ⟨.act cx f, fun s _ _ => ⟨0, fun m _ a t ended => ?_, fun m _ e t ended => ?_, never⟩⟩
  · cases hf : (f s.scopes s.printer).1 with
    | ok b =>
        rw [Eval.act_of_ok cx hf] at ended
        cases ended
        exact Eval.act_of_ok cx hf
    | error cause =>
        rw [Eval.act_of_error cx hf] at ended
        cases ended
  · cases hf : (f s.scopes s.printer).1 with
    | ok b =>
        rw [Eval.act_of_ok cx hf] at ended
        cases ended
    | error cause =>
        rw [Eval.act_of_error cx hf] at ended
        cases ended
        exact Eval.act_of_error cx hf

/-- A sequence needs as many calls as the part of it that needs more. -/
theorem bind {f : α → Eval ν β} (h : Sharp x) (hf : ∀ a, Sharp (f a)) : Sharp (x >>= f) := by
  refine ⟨h.balanced.bind fun a => (hf a).balanced, fun s free done => ?_⟩
  obtain ⟨calls, first⟩ := h.needs s free fun lacking => done (bind_of_exhausted lacking)
  have fails : ∀ m, m < calls → s.stack.depth ≤ m →
      Outcome.HitsLimit m ((x >>= f) (s.limited m)) := by
    intro m lt room
    obtain ⟨e, t, failed, hits⟩ := first.hits m lt room
    exact ⟨e, t, bind_of_error failed, hits⟩
  cases hx : x s with
  | exhausted => exact absurd (bind_of_exhausted hx) done
  | error e t =>
      have stops := bind_of_error (f := f) hx
      refine ⟨calls, fun m _ b u ended => ?_, fun m le e' u ended => ?_, fails⟩
      · rw [stops] at ended
        cases ended
      · rw [stops] at ended
        cases ended
        exact bind_of_error (first.error m le e t hx)
  | value a t =>
      have same := h.balanced.of_value hx
      have resumes := bind_of_value (f := f) hx
      have resumes_limited := fun m le => bind_of_value (f := f) (first.value m le a t hx)
      obtain ⟨more, second⟩ := (hf a).needs t (same.limit.trans free) (by rwa [← resumes])
      refine ⟨max calls more, fun m le b u ended => ?_, fun m le e u ended => ?_,
        fun m lt room => ?_⟩
      · rw [resumes] at ended
        rw [resumes_limited m (by omega)]
        exact second.value m (by omega) b u ended
      · rw [resumes] at ended
        rw [resumes_limited m (by omega)]
        exact second.error m (by omega) e u ended
      · by_cases early : m < calls
        · exact fails m early room
        · have room_second : t.stack.depth ≤ m := by rwa [CallStack.depth, same.frames]
          rw [resumes_limited m (by omega)]
          exact second.hits m (by omega) room_second

theorem inNewScope (h : Sharp x) : Sharp (Eval.inNewScope x) := by
  refine ⟨h.balanced.inNewScope, fun s free done => ?_⟩
  rw [Eval.inNewScope_apply] at done
  obtain ⟨calls, inside⟩ := h.needs { s with scopes := s.scopes.enter } free
    (mt Outcome.exit_eq_exhausted.2 done)
  have entered : ∀ m, ({ s.limited m with scopes := (s.limited m).scopes.enter } : State ν) =
      ({ s with scopes := s.scopes.enter } : State ν).limited m := fun _ => rfl
  refine ⟨calls, fun m le a t ended => ?_, fun m le e t ended => ?_, fun m lt room => ?_⟩
  · rw [Eval.inNewScope_apply, Outcome.exit_eq_value] at ended
    obtain ⟨u, hx, rfl⟩ := ended
    rw [Eval.inNewScope_apply, entered, inside.value m le a u hx]
    rfl
  · rw [Eval.inNewScope_apply, Outcome.exit_eq_error] at ended
    obtain ⟨_, u, hx, rfl, rfl⟩ := ended
    rw [Eval.inNewScope_apply, entered, inside.error m le _ u hx]
    rfl
  · obtain ⟨e, t, failed, hits⟩ := inside.hits m lt room
    rw [Eval.inNewScope_apply, entered, failed]
    exact ⟨e, _, rfl, hits⟩

/-- A call needs one call more than are active, and what its body needs. -/
theorem activate [DecidableEq ν] (cx : Context ν) (f : ν) (arguments : List (ν × Value))
    (h : Sharp x) : Sharp (Eval.activate cx f arguments x) := by
  refine ⟨h.balanced.activate cx f arguments, fun s free done => ?_⟩
  have started := Eval.activate_of_room cx f arguments x (s := s) fun limit limited => by
    rw [free] at limited
    cases limited
  have started_limited : ∀ m, s.stack.depth < m →
      Eval.activate cx f arguments x (s.limited m) =
        (x ((s.enterCall (s.stack.entered f) arguments).limited m)).exit (s.limited m).leaveCall
          fun t => cx.leave t.stack := by
    intro m lt
    refine Eval.activate_of_room cx f arguments x fun limit limited => ?_
    cases limited
    exact lt
  rw [started] at done
  obtain ⟨calls, inside⟩ := h.needs (s.enterCall (s.stack.entered f) arguments) free
    (mt Outcome.exit_eq_exhausted.2 done)
  refine ⟨max calls (s.stack.depth + 1), fun m le a t ended => ?_, fun m le e t ended => ?_,
    fun m lt room => ?_⟩
  · rw [started, Outcome.exit_eq_value] at ended
    obtain ⟨u, hx, rfl⟩ := ended
    rw [started_limited m (by omega), inside.value m (by omega) a u hx, ← State.leaveCall_limited]
    rfl
  · rw [started, Outcome.exit_eq_error] at ended
    obtain ⟨e', u, hx, rfl, rfl⟩ := ended
    rw [started_limited m (by omega), inside.error m (by omega) e' u hx, ← State.leaveCall_limited]
    rfl
  · by_cases full : m ≤ s.stack.depth
    · -- The call itself is refused.
      rw [Eval.activate_of_full cx f arguments x (s := s.limited m) rfl full]
      exact ⟨_, _, rfl, cx.cause_raise _ _⟩
    · have deeper : (s.enterCall (s.stack.entered f) arguments).stack.depth ≤ m :=
        Nat.lt_of_not_le full
      obtain ⟨e, t, failed, hits⟩ := inside.hits m (by omega) deeper
      rw [started_limited m (by omega), failed]
      exact ⟨_, _, rfl, (cx.cause_leave _ e).trans hits⟩

end Sharp

end Run

/-- Every part of an evaluation needs some number of calls. -/
theorem Congruence.sharp [DecidableEq ν] (cx : Context ν) :
    Congruence cx cx Scoping.free fun _ {_} x _ => Run.Sharp x :=
  .ofActs rfl rfl
    (fun _ => .exhausted)
    (fun f _ => .act cx f)
    .bind
    .inNewScope
    fun f arguments => .activate cx f arguments

variable [DecidableEq ν]

theorem sharp_eval (cx : Context ν) (fuel : Nat) (e : Expr ν) : Run.Sharp (eval cx fuel e) :=
  (Congruence.sharp cx).eval (Nat.le_refl fuel) e (i := ()) (Scoping.free_admits _ _)

namespace Interpreter

omit [DecidableEq ν] in
/-- The interpreter with another limit, or none, on the number of active calls. -/
def withLimit (interp : Interpreter ν) (limit : Option Nat) : Interpreter ν :=
  { interp with stack := { interp.stack with limit } }

/-- The number of calls that an evaluation needs. With that limit or a higher one it ends in the same
way, in an interpreter that only differs in the limit; with a lower limit it hits it. -/
structure Needs (label : ν → String) (interp : Interpreter ν) (scope : Nat) (e : Expr ν)
    (out : Outcome (Interpreter ν) EvalError Value) (calls : Nat) : Prop where
  enough : ∀ m, calls ≤ m →
    ∃ out', Outcome.Converges ((interp.withLimit (some m)).eval label · scope e) out' ∧
      Outcome.Follows (fun after after' => after' = after.withLimit (some m)) out out'
  lacking : ∀ m, m < calls → ∃ err after,
    Outcome.Converges ((interp.withLimit (some m)).eval label · scope e) (.error err after) ∧
      err.cause = .recursionLimit m

omit [DecidableEq ν] in
/-- What a computation needs from the state of an interpreter decides how it ends under a limit. -/
theorem follows_run_of_needs {interp : Interpreter ν} {scope : Nat} {x : Eval ν α} {calls m : Nat}
    (needs : Run.Needs x ((interp.withLimit none).load scope) calls) (enough : calls ≤ m) :
    Outcome.Follows (fun after after' => after' = after.withLimit (some m))
      ((interp.withLimit none).run scope x) ((interp.withLimit (some m)).run scope x) := by
  cases hx : x ((interp.withLimit none).load scope) with
  | value a t =>
      rw [run_of_value hx, run_of_value (needs.value m enough a t hx)]
      exact .value rfl
  | error e t =>
      rw [run_of_error hx, run_of_error (needs.error m enough e t hx)]
      exact .error rfl
  | exhausted =>
      rw [run_eq_exhausted.2 hx]
      exact .exhausted

/-- With no call active at the start, an evaluation that ends without a limit needs some number of
calls. -/
theorem limit_sharp (label : ν → String) (interp : Interpreter ν)
    (idle : interp.stack.frames = []) (scope : Nat) (e : Expr ν)
    {out : Outcome (Interpreter ν) EvalError Value}
    (converges : Outcome.Converges ((interp.withLimit none).eval label · scope e) out) :
    ∃ calls, Needs label interp scope e out calls := by
  obtain ⟨done, fuel, rfl⟩ := converges
  have ends : MiniLisp.eval (interp.context label) fuel e ((interp.withLimit none).load scope) ≠
      .exhausted := by
    intro lacking
    exact done (run_eq_exhausted.2 lacking)
  obtain ⟨calls, needs⟩ := (sharp_eval (interp.context label) fuel e).needs _ rfl ends
  refine ⟨calls, fun m enough => ?_, fun m lt => ?_⟩
  · have follows := follows_run_of_needs needs enough
    exact ⟨_, ⟨follows.ne_exhausted done, fuel, rfl⟩, follows⟩
  · have room : ((interp.withLimit none).load scope).stack.depth ≤ m := by
      show interp.stack.frames.length ≤ m
      rw [idle]
      exact m.zero_le
    obtain ⟨err, t, failed, hits⟩ := needs.hits m lt room
    exact ⟨err, _, .of_error (run_of_error failed), hits⟩

/-- One call is active at once in an evaluation of two calls. -/
theorem limit_sharp_nested :
    let e := .variadic (.arithmetic .add) [.call 9 [], .call 9 []]
    (nested.eval (fun _ => "") 5 1 e).after?.isSome ∧
      ∃ calls, Needs (fun _ => "") nested 1 e (nested.eval (fun _ => "") 5 1 e) calls := by
  intro e
  have ends : (nested.eval (fun _ => "") 5 1 e).after?.isSome := by decide +kernel
  exact ⟨ends, limit_sharp (fun _ => "") nested rfl 1 e
    (.of_after? (Option.some_get ends).symm)⟩

end Interpreter

end MiniLisp
