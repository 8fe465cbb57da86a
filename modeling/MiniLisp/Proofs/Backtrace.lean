import MiniLisp.Proofs.Balance
import MiniLisp.Proofs.Fuel

/-!
Backtraces are exact. An error gets its backtrace as it leaves a call, and that is the backtrace that
an evaluator with no such late step gives it at once, where it is raised
(`Interpreter.backtrace_exact`). A call that cannot start is not in the backtrace, and an error at the
limit shows as many calls as the limit allows.
-/

namespace MiniLisp

variable {ν α β : Type}

theorem Context.raise_onRaise (functions : FunctionTable ν) (label : ν → String)
    (stack : CallStack ν) (cause : Cause) :
    raise ⟨functions, label, .onRaise⟩ stack cause = stack.stamp label cause := rfl

/-- The second outcome is the first one, with the backtrace of the active calls on an error that has
none. -/
inductive Outcome.Stamps (label : ν → String) (stack : CallStack ν) :
    Outcome (State ν) EvalError α → Outcome (State ν) EvalError α → Prop
  | value {a : α} {t : State ν} : Stamps label stack (.value a t) (.value a t)
  | error {e e' : EvalError} {t : State ν} :
      e' = stack.attach label e → Stamps label stack (.error e t) (.error e' t)
  | exhausted {out : Outcome (State ν) EvalError α} : Stamps label stack .exhausted out

theorem Outcome.Stamps.congr {label : ν → String} {stack stack' : CallStack ν}
    {out out' : Outcome (State ν) EvalError α} (frames : stack'.frames = stack.frames)
    (h : Stamps label stack out out') : Stamps label stack' out out' := by
  cases h with
  | value => exact .value
  | error stamped =>
      rw [← CallStack.attach_congr frames] at stamped
      exact .error stamped
  | exhausted => exact .exhausted

theorem Outcome.Stamps.exit {label : ν → String} {stack inner : CallStack ν}
    {out out' : Outcome (State ν) EvalError α} {leave : State ν → State ν}
    {mark mark' : State ν → EvalError → EvalError} (h : Stamps label inner out out')
    (marked : ∀ e t, out = .error e t →
      mark' t (inner.attach label e) = stack.attach label (mark t e)) :
    Stamps label stack (out.exit leave mark) (out'.exit leave mark') := by
  cases h with
  | value => exact .value
  | @error e e' t stamped =>
      refine .error ?_
      rw [stamped]
      exact marked e t rfl
  | exhausted => exact .exhausted

namespace Run

/-- Wherever it starts, the second computation stamps the errors of the first. -/
structure Stamps (label : ν → String) (x y : Eval ν α) : Prop where
  balanced : Balanced x
  outcome : ∀ s, Outcome.Stamps label s.stack (x s) (y s)

namespace Stamps

variable {label : ν → String} {x y : Eval ν α}

theorem act (functions : FunctionTable ν)
    (f : Chain ν → Printer → Except Cause α × Chain ν × Printer) :
    Stamps label (Eval.act ⟨functions, label, .onExit⟩ f)
      (Eval.act ⟨functions, label, .onRaise⟩ f) := by
  refine ⟨.act _ f, fun s => ?_⟩
  cases hf : (f s.scopes s.printer).1 with
  | ok a =>
      rw [Eval.act_of_ok _ hf, Eval.act_of_ok _ hf]
      exact .value
  | error cause =>
      rw [Eval.act_of_error _ hf, Eval.act_of_error _ hf]
      exact .error (s.stack.attach_ofCause label cause).symm

theorem bind {f g : α → Eval ν β} (h : Stamps label x y) (hf : ∀ a, Stamps label (f a) (g a)) :
    Stamps label (x >>= f) (y >>= g) := by
  refine ⟨h.balanced.bind fun a => (hf a).balanced, fun s => ?_⟩
  rw [bind_apply, bind_apply]
  have first := h.outcome s
  have same := fun a t (hx : x s = .value a t) => (h.balanced.of_value hx).frames
  generalize x s = out, y s = out' at first same ⊢
  cases first with
  | value => exact ((hf _).outcome _).congr (same _ _ rfl).symm
  | error stamped => exact .error stamped
  | exhausted => exact .exhausted

theorem inNewScope (h : Stamps label x y) :
    Stamps label (Eval.inNewScope x) (Eval.inNewScope y) := by
  refine ⟨h.balanced.inNewScope, fun s => ?_⟩
  rw [Eval.inNewScope_apply, Eval.inNewScope_apply]
  exact (h.outcome _).exit fun _ _ _ => rfl

/-- The call that an error leaves is the innermost one that is active, so the error has a backtrace
from then on, and that is the one it was raised with. -/
theorem activate [DecidableEq ν] (functions : FunctionTable ν) (f : ν)
    (arguments : List (ν × Value)) (h : Stamps label x y) :
    Stamps label (Eval.activate ⟨functions, label, .onExit⟩ f arguments x)
      (Eval.activate ⟨functions, label, .onRaise⟩ f arguments y) := by
  refine ⟨h.balanced.activate _ f arguments, fun s => ?_⟩
  rcases Eval.activate_cases ⟨functions, label, .onExit⟩ f arguments x s with
    ⟨limit, hlimit, full, refused⟩ | ⟨room, started⟩
  · rw [refused, Eval.activate_of_full _ f arguments y hlimit full]
    exact .error (s.stack.attach_ofCause label _).symm
  · rw [started, Eval.activate_of_room _ f arguments y room]
    refine (h.outcome _).exit fun e t failed => ?_
    have frames : t.stack.frames = f :: s.stack.frames := (h.balanced.of_error failed).frames
    have active : t.stack.frames ≠ [] := by
      rw [frames]
      exact List.cons_ne_nil _ _
    calc (s.stack.entered f).attach label e
      _ = t.stack.attach label e := (CallStack.attach_congr frames label e).symm
      _ = s.stack.attach label (t.stack.attach label e) :=
        (s.stack.attach_attach active label e).symm

end Stamps

end Run

/-! ### Errors at the limit -/

/-- If the error is the limit of active calls, its backtrace shows as many calls as that limit
allows; there is no backtrace if it allows none. -/
def EvalError.AtLimit (limit : Option Nat) (e : EvalError) : Prop :=
  ∀ m, e.cause = .recursionLimit m → limit = some m ∧
    e.backtrace.map (fun trace => trace.frames.length) = if m = 0 then none else some m

/-- No more calls are active than the limit allows. -/
def CallStack.Bounded (stack : CallStack ν) : Prop := ∀ m, stack.limit = some m → stack.depth ≤ m

namespace CallStack

variable {stack stack' : CallStack ν}

theorem Bounded.of_idle (h : stack.frames = []) : stack.Bounded := by
  intro m _
  simp [depth, h]

theorem Bounded.congr (h : stack.Bounded) (frames : stack'.frames = stack.frames)
    (limit : stack'.limit = stack.limit) : stack'.Bounded := by
  unfold Bounded depth
  rw [frames, limit]
  exact h

/-- A stack that refuses a call is full. -/
theorem Bounded.atLimit_stamp (h : stack.Bounded) {m : Nat} (hlimit : stack.limit = some m)
    (full : m ≤ stack.depth) (label : ν → String) :
    (stack.stamp label (.recursionLimit m)).AtLimit stack.limit := by
  intro k hk
  cases hk
  have exact_depth : stack.frames.length = m := Nat.le_antisymm (h m hlimit) full
  refine ⟨hlimit, ?_⟩
  cases hframes : stack.frames with
  | nil =>
      have : m = 0 := by rw [← exact_depth, hframes, List.length_nil]
      simp [stamp, hframes, this]
  | cons f rest =>
      have : m = rest.length + 1 := by rw [← exact_depth, hframes, List.length_cons]
      simp [stamp, hframes, this]

end CallStack

theorem EvalError.atLimit_of_limitFree {cause : Cause} (h : ¬cause.IsLimit) (stack : CallStack ν)
    (label : ν → String) (limit : Option Nat) : (stack.stamp label cause).AtLimit limit := by
  intro m hm
  cases hm
  exact absurd trivial h

/-- From a stack within its limit, an error at the limit shows a full stack. -/
structure Run.FillsLimit (x : Eval ν α) : Prop where
  balanced : Balanced x
  atLimit : ∀ s, s.stack.Bounded → ∀ e t, x s = .error e t → e.AtLimit s.stack.limit

namespace Run.FillsLimit

variable {functions : FunctionTable ν} {label : ν → String} {x : Eval ν α}

theorem exhausted : FillsLimit (Run.exhausted : Eval ν α) := by
  refine ⟨.exhausted, fun s _ e t failed => ?_⟩
  cases failed

theorem act (f : Chain ν → Printer → Except Cause α × Chain ν × Printer)
    (limitFree : ∀ c p, LimitFree (f c p).1) :
    FillsLimit (Eval.act ⟨functions, label, .onRaise⟩ f) := by
  refine ⟨.act _ f, fun s _ e t failed => ?_⟩
  cases hf : (f s.scopes s.printer).1 with
  | ok a =>
      rw [Eval.act_of_ok _ hf] at failed
      cases failed
  | error cause =>
      rw [Eval.act_of_error _ hf] at failed
      cases failed
      rw [Context.raise_onRaise]
      exact EvalError.atLimit_of_limitFree (limitFree _ _ cause hf) s.stack label s.stack.limit

theorem bind {f : α → Eval ν β} (h : FillsLimit x) (hf : ∀ a, FillsLimit (f a)) :
    FillsLimit (x >>= f) := by
  refine ⟨h.balanced.bind fun a => (hf a).balanced, fun s bounded e t failed => ?_⟩
  rcases bind_eq_error.1 failed with failed | ⟨a, u, hx, failed⟩
  · exact h.atLimit s bounded e t failed
  · have same := h.balanced.of_value hx
    rw [← same.limit]
    exact (hf a).atLimit u (bounded.congr same.frames same.limit) e t failed

theorem inNewScope (h : FillsLimit x) : FillsLimit (Eval.inNewScope x) := by
  refine ⟨h.balanced.inNewScope, fun s bounded e t failed => ?_⟩
  rw [Eval.inNewScope_apply, Outcome.exit_eq_error] at failed
  obtain ⟨_, u, failed, rfl, -⟩ := failed
  exact h.atLimit { s with scopes := s.scopes.enter } bounded _ u failed

theorem activate [DecidableEq ν] (f : ν) (arguments : List (ν × Value)) (h : FillsLimit x) :
    FillsLimit (Eval.activate ⟨functions, label, .onRaise⟩ f arguments x) := by
  refine ⟨h.balanced.activate _ f arguments, fun s bounded e t failed => ?_⟩
  rcases Eval.activate_cases ⟨functions, label, .onRaise⟩ f arguments x s with
    ⟨m, hlimit, full, refused⟩ | ⟨room, started⟩
  · rw [refused] at failed
    cases failed
    rw [Context.raise_onRaise]
    exact bounded.atLimit_stamp hlimit full label
  · rw [started, Outcome.exit_eq_error] at failed
    obtain ⟨_, u, failed, rfl, -⟩ := failed
    exact h.atLimit (s.enterCall (s.stack.entered f) arguments) room _ u failed

end Run.FillsLimit

variable [DecidableEq ν]

namespace Congruence

variable (functions : FunctionTable ν) (label : ν → String)

/-- Every part of an evaluation is stamped by the same part of the evaluation that stamps at once. -/
theorem stamps :
    Congruence ⟨functions, label, .onExit⟩ ⟨functions, label, .onRaise⟩ Scoping.free
      fun _ {_} => Run.Stamps label :=
  .ofActs rfl rfl
    (fun _ => ⟨.exhausted, fun _ => .exhausted⟩)
    (fun f _ => .act functions f)
    .bind
    .inNewScope
    fun f arguments => .activate functions f arguments

theorem fillsLimit :
    Congruence ⟨functions, label, .onRaise⟩ ⟨functions, label, .onRaise⟩ Scoping.free
      fun _ {_} x _ => Run.FillsLimit x :=
  .ofActs rfl rfl
    (fun _ => .exhausted)
    .act
    .bind
    .inNewScope
    fun f arguments => .activate f arguments

end Congruence

/-! ### Errors of a call -/

/-- How a call fails, by the point at which its error is raised. Unless that is in the body, the error
has the backtrace of the calls around it and does not show the call itself. -/
inductive CallFailure (cx : Context ν) (fuel : Nat) (f : ν) (args : List (Expr ν)) (s : State ν) :
    EvalError → State ν → Prop
  | undefinedFunction : cx.functions.get? f = none →
      CallFailure cx fuel f args s (s.stack.stamp cx.label (.undefinedFunction (cx.label f))) s
  /-- An argument failed, under the calls around the call. -/
  | argument {found : Definition ν} {e : EvalError} {t : State ν} :
      cx.functions.get? f = some found → Eval.all (eval cx fuel) args s = .error e t →
        CallFailure cx fuel f args s e t
  | tooFewArguments {found : Definition ν} {values : List Value} {t : State ν} :
      cx.functions.get? f = some found → Eval.all (eval cx fuel) args s = .value values t →
        values.length < found.fn.params.length →
          CallFailure cx fuel f args s (s.stack.stamp cx.label (.tooFewArguments
            (cx.label found.fn.name) found.fn.params.length values.length)) t
  | recursionLimit {found : Definition ν} {values : List Value} {t : State ν} {limit : Nat} :
      cx.functions.get? f = some found → Eval.all (eval cx fuel) args s = .value values t →
        found.fn.params.length ≤ values.length → s.stack.limit = some limit →
          limit ≤ s.stack.depth →
            CallFailure cx fuel f args s (s.stack.stamp cx.label (.recursionLimit limit)) t
  /-- The body failed, under the calls around the call and the call itself. -/
  | body {found : Definition ν} {values : List Value} {e : EvalError} {t after : State ν} :
      cx.functions.get? f = some found → Eval.all (eval cx fuel) args s = .value values t →
        found.fn.params.length ≤ values.length → t.stack.frames = s.stack.frames →
          Eval.body (eval cx fuel) found.fn.body .nil
            (t.enterCall (t.stack.entered f) (found.fn.arguments values)) = .error e after →
              CallFailure cx fuel f args s e (t.leaveCall after)

theorem callFailure_of_error (functions : FunctionTable ν) (label : ν → String) (fuel : Nat) (f : ν)
    (args : List (Expr ν)) {s t : State ν} {e : EvalError}
    (failed : eval ⟨functions, label, .onRaise⟩ (fuel + 1) (.call f args) s = .error e t) :
    CallFailure ⟨functions, label, .onRaise⟩ fuel f args s e t := by
  change Eval.call _ (eval _ fuel) f args s = _ at failed
  unfold Eval.call at failed
  cases hf : functions.get? f with
  | none =>
      simp only [hf] at failed
      cases failed
      rw [Context.raise_onRaise]
      exact .undefinedFunction hf
  | some found =>
      simp only [hf] at failed
      rcases Run.bind_eq_error.1 failed with failed | ⟨values, u, hargs, failed⟩
      · exact .argument hf failed
      have same := (balanced_all _ fuel args).of_value hargs
      by_cases few : values.length < found.fn.params.length
      · rw [FunctionDef.checkArity, if_pos few] at failed
        cases failed
        rw [Context.raise_onRaise, CallStack.stamp_congr same.frames]
        exact .tooFewArguments hf hargs few
      · have enough := Nat.le_of_not_lt few
        rw [FunctionDef.checkArity, if_neg few] at failed
        have started : Eval.ofExcept ⟨functions, label, .onRaise⟩ (.ok ()) u = .value () u := rfl
        rw [Run.bind_of_value started] at failed
        rcases Run.bind_eq_error.1 failed with failed | ⟨result, v, -, failed⟩
        · rcases Eval.activate_cases ⟨functions, label, .onRaise⟩ f (found.fn.arguments values)
            (Eval.body (eval ⟨functions, label, .onRaise⟩ fuel) found.fn.body .nil) u with
            ⟨limit, hlimit, full, refused⟩ | ⟨-, runs⟩
          · rw [refused] at failed
            cases failed
            rw [Context.raise_onRaise, CallStack.stamp_congr same.frames]
            rw [CallStack.depth, same.frames] at full
            exact .recursionLimit hf hargs enough (same.limit ▸ hlimit) full
          · rw [runs, Outcome.exit_eq_error] at failed
            obtain ⟨_, after, hbody, rfl, rfl⟩ := failed
            exact .body hf hargs enough same.frames hbody
        · cases failed

/-! ### The interpreter and its reference -/

namespace Interpreter

/-- The context of the reference, which stamps every error where it is raised. -/
def reference (label : ν → String) (interp : Interpreter ν) : Context ν :=
  ⟨interp.functions, label, .onRaise⟩

def referenceEval (label : ν → String) (fuel : Nat) (interp : Interpreter ν) (scope : Nat)
    (e : Expr ν) : Outcome (Interpreter ν) EvalError Value :=
  interp.run scope (MiniLisp.eval (interp.reference label) fuel e)

def referenceWrite (label : ν → String) (fuel : Nat) (interp : Interpreter ν) (scope : Nat)
    (target : Target ν) (v : Value) : Outcome (Interpreter ν) EvalError Value :=
  interp.run scope (Eval.write (interp.reference label) fuel target v)

def referenceExecute (label : ν → String) (fuel : Nat) (interp : Interpreter ν) :
    Form ν → Outcome (Interpreter ν) EvalError (Option Value)
  | .expr e => (interp.referenceEval label fuel root e).map some
  | .function fn => .value none { interp with functions := (interp.functions.define fn).2 }

theorem execute_expr (label : ν → String) (fuel : Nat) (interp : Interpreter ν) (e : Expr ν) :
    interp.execute label fuel (.expr e) = (interp.eval label fuel root e).map some := by
  unfold execute
  dsimp only
  cases interp.eval label fuel root e <;> rfl

variable {label : ν → String} {interp : Interpreter ν} {scope : Nat}

omit [DecidableEq ν] in
/-- With no call active at the start, the stamped errors are the errors themselves. -/
theorem error_of_stamps (idle : interp.stack.frames = []) {x y : Eval ν α}
    (stamps : Run.Stamps label x y) {err : EvalError} {after : Interpreter ν}
    (failed : interp.run scope x = .error err after) :
    interp.run scope y = .error err after := by
  obtain ⟨t, hx, rfl⟩ := run_eq_error.1 failed
  have both := stamps.outcome (interp.load scope)
  have loaded : (interp.load scope).stack.frames = [] := idle
  rw [hx] at both
  refine run_of_error ?_
  generalize y (interp.load scope) = out at both ⊢
  cases both with
  | error stamped => rw [stamped, CallStack.attach_of_idle loaded]

omit [DecidableEq ν] in
theorem atLimit_of_fillsLimit (idle : interp.stack.frames = []) {x : Eval ν α}
    (fills : Run.FillsLimit x) {err : EvalError} {after : Interpreter ν}
    (failed : interp.run scope x = .error err after) : err.AtLimit interp.stack.limit := by
  obtain ⟨t, failed, -⟩ := run_eq_error.1 failed
  exact fills.atLimit (interp.load scope) (.of_idle idle) err t failed

omit [DecidableEq ν] in
/-- The reference fails in one way only, and that is the way of the computation it stamps. -/
theorem converges_reference (idle : interp.stack.frames = []) {x y : Nat → Eval ν α}
    (stamps : ∀ n, Run.Stamps label (x n) (y n)) (fills : ∀ n, Run.FillsLimit (y n))
    (stable : ∀ n m, n ≤ m → Run.Extends (y n) (y m)) {err : EvalError} {after : Interpreter ν}
    (failed : Outcome.Converges (fun n => interp.run scope (x n)) (.error err after)) :
    (∀ out, Outcome.Converges (fun n => interp.run scope (y n)) out ↔ out = .error err after) ∧
      err.AtLimit interp.stack.limit := by
  obtain ⟨-, fuel, ended⟩ := failed
  have ended' : interp.run scope (y fuel) = .error err after :=
    error_of_stamps idle (stamps fuel) ended
  have converges : Outcome.Converges (fun n => interp.run scope (y n)) (.error err after) :=
    .of_error ended'
  refine ⟨fun out => ⟨fun h => run_unique stable h converges, ?_⟩,
    atLimit_of_fillsLimit idle (fills fuel) ended'⟩
  rintro rfl
  exact converges

theorem referenceEval_of_eval (idle : interp.stack.frames = []) (e : Expr ν) {err : EvalError}
    {after : Interpreter ν}
    (failed : Outcome.Converges (interp.eval label · scope e) (.error err after)) :
    (∀ out, Outcome.Converges (interp.referenceEval label · scope e) out ↔
      out = .error err after) ∧ err.AtLimit interp.stack.limit := by
  have stamps := fun n => (Congruence.stamps interp.functions label).eval (Nat.le_refl n) e
    (i := ()) (Scoping.free_admits _ _)
  have fills := fun n => (Congruence.fillsLimit interp.functions label).eval (Nat.le_refl n) e
    (i := ()) (Scoping.free_admits _ _)
  exact converges_reference idle stamps fills (fun _ _ le => eval_stable _ le e) failed

theorem referenceWrite_of_write (idle : interp.stack.frames = []) (target : Target ν) (v : Value)
    {err : EvalError} {after : Interpreter ν}
    (failed : Outcome.Converges (interp.write label · scope target v) (.error err after)) :
    (∀ out, Outcome.Converges (interp.referenceWrite label · scope target v) out ↔
      out = .error err after) ∧ err.AtLimit interp.stack.limit := by
  have stamps := fun n => (Congruence.stamps interp.functions label).write (Nat.le_refl n) target v
    (i := ()) (Scoping.free_admits _ _)
  have fills := fun n => (Congruence.fillsLimit interp.functions label).write (Nat.le_refl n)
    target v (i := ()) (Scoping.free_admits _ _)
  exact converges_reference idle stamps fills (fun _ _ le => write_stable _ le target v) failed

theorem referenceExecute_of_execute (idle : interp.stack.frames = []) (form : Form ν)
    {err : EvalError} {after : Interpreter ν}
    (failed : Outcome.Converges (interp.execute label · form) (.error err after)) :
    (∀ out, Outcome.Converges (interp.referenceExecute label · form) out ↔
      out = .error err after) ∧ err.AtLimit interp.stack.limit := by
  cases form with
  | function fn =>
      obtain ⟨-, fuel, ended⟩ := failed
      cases ended
  | expr e =>
      simp only [execute_expr] at failed
      obtain ⟨first, failed, isError⟩ := Outcome.converges_map.1 failed
      obtain rfl := Outcome.map_eq_error.1 isError
      obtain ⟨same, atLimit⟩ := referenceEval_of_eval idle e failed
      refine ⟨fun out => ?_, atLimit⟩
      show Outcome.Converges (fun n => (interp.referenceEval label n root e).map some) out ↔ _
      rw [Outcome.converges_map]
      constructor
      · rintro ⟨first, converges, rfl⟩
        rw [(same first).1 converges]
        rfl
      · rintro rfl
        exact ⟨_, (same _).2 rfl, rfl⟩

/-- With no call active at the start, an execution, evaluation or write that fails has the error, and
so the backtrace, of the reference. A limit of active calls shows as many calls as it allows, and a
call is in the backtrace of none of the errors that come before its body. -/
theorem backtrace_exact (label : ν → String) (interp : Interpreter ν)
    (idle : interp.stack.frames = []) :
    (∀ form err after, Outcome.Converges (interp.execute label · form) (.error err after) →
      (∀ out, Outcome.Converges (interp.referenceExecute label · form) out ↔
        out = .error err after) ∧ err.AtLimit interp.stack.limit) ∧
    (∀ scope e err after, Outcome.Converges (interp.eval label · scope e) (.error err after) →
      (∀ out, Outcome.Converges (interp.referenceEval label · scope e) out ↔
        out = .error err after) ∧ err.AtLimit interp.stack.limit) ∧
    (∀ scope target v err after,
      Outcome.Converges (interp.write label · scope target v) (.error err after) →
        (∀ out, Outcome.Converges (interp.referenceWrite label · scope target v) out ↔
          out = .error err after) ∧ err.AtLimit interp.stack.limit) ∧
    ∀ fuel f args s err t,
      MiniLisp.eval (interp.reference label) (fuel + 1) (.call f args) s = .error err t →
        CallFailure (interp.reference label) fuel f args s err t :=
  ⟨fun form _ _ failed => referenceExecute_of_execute idle form failed,
    fun _ e _ _ failed => referenceEval_of_eval idle e failed,
    fun _ target v _ _ failed => referenceWrite_of_write idle target v failed,
    fun fuel f args _ _ _ failed => callFailure_of_error interp.functions label fuel f args failed⟩

/-- The function 8 calls the function 9, which calls the function 7, which there is not. -/
def chained (limit : Option Nat) : Interpreter Nat where
  store := Store.new
  functions := ((FunctionTable.new.define ⟨8, [], [.call 9 []]⟩).2.define ⟨9, [], [.call 7 []]⟩).2
  stack := CallStack.new limit
  printer := .silent

/-- Without a limit both calls are active when the error is raised, with a limit of one only the outer
one, and with a limit of none no call is. -/
theorem backtrace_exact_chained :
    (∃ after, Outcome.Converges ((chained none).referenceExecute toString · (.expr (.call 8 [])))
      (.error ⟨.undefinedFunction "7", some ⟨["9", "8"]⟩⟩ after)) ∧
    (∃ after, Outcome.Converges ((chained (some 1)).referenceEval toString · 0 (.call 8 []))
      (.error ⟨.recursionLimit 1, some ⟨["8"]⟩⟩ after)) ∧
    ∃ after, Outcome.Converges
      ((chained (some 0)).referenceWrite toString · 0 (.element 1 (.call 8 [])) .nil)
        (.error ⟨.recursionLimit 0, none⟩ after) := by
  have executed : ((chained none).execute toString 5 (.expr (.call 8 []))).failure? =
      some ⟨.undefinedFunction "7", some ⟨["9", "8"]⟩⟩ := by decide +kernel
  have evaluated : ((chained (some 1)).eval toString 5 0 (.call 8 [])).failure? =
      some ⟨.recursionLimit 1, some ⟨["8"]⟩⟩ := by decide +kernel
  have written : ((chained (some 0)).write toString 5 0 (.element 1 (.call 8 [])) .nil).failure? =
      some ⟨.recursionLimit 0, none⟩ := by decide +kernel
  obtain ⟨after, executed⟩ := Outcome.failure?_eq_some.1 executed
  obtain ⟨after', evaluated⟩ := Outcome.failure?_eq_some.1 evaluated
  obtain ⟨after'', written⟩ := Outcome.failure?_eq_some.1 written
  refine ⟨⟨after, ?_⟩, ⟨after', ?_⟩, after'', ?_⟩
  · exact (((backtrace_exact toString (chained none) rfl).1 _ _ _ (.of_error executed)).1 _).2 rfl
  · exact (((backtrace_exact toString (chained (some 1)) rfl).2.1 _ _ _ _
      (.of_error evaluated)).1 _).2 rfl
  · exact (((backtrace_exact toString (chained (some 0)) rfl).2.2.1 _ _ _ _ _
      (.of_error written)).1 _).2 rfl

end Interpreter

end MiniLisp
