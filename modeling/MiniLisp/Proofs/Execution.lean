import MiniLisp.Proofs.Backtrace

/-!
The active calls over a whole execution. Wherever an evaluation ends, with a value or an error, the
calls that were active at its start are active again; on the way there were never more of them than
the limit allows, and no call was removed from an empty stack. So forms that are executed one after
another start and end with no call active, also after one that fails
(`Interpreter.calls_balanced`).
-/

namespace MiniLisp

variable {ν α β : Type}

namespace CallStack

/-- The stack is as before, and what was counted in between kept to the limit: no more calls were
active at once than it allows, and no removal met an empty stack. -/
structure Settles (before after : CallStack ν) : Prop where
  frames : after.frames = before.frames
  limit : after.limit = before.limit
  peak_le : ∀ m, before.limit = some m → after.peak ≤ max before.peak m
  unmatched : after.unmatched = before.unmatched

theorem unmatched_pop {stack : CallStack ν} {f : ν} {rest : List ν}
    (h : stack.frames = f :: rest) : stack.pop.unmatched = stack.unmatched := by
  rw [pop, h]

namespace Settles

variable {before between after : CallStack ν}

theorem refl (stack : CallStack ν) : Settles stack stack :=
  ⟨rfl, rfl, fun _ _ => Nat.le_max_left _ _, rfl⟩

theorem trans (h : Settles before between) (h' : Settles between after) :
    Settles before after := by
  refine ⟨h'.frames.trans h.frames, h'.limit.trans h.limit, fun m limited => ?_,
    h'.unmatched.trans h.unmatched⟩
  have first := h.peak_le m limited
  have second := h'.peak_le m (h.limit.trans limited)
  omega

/-- A call that there is room for adds one to the active calls, and is the one that is removed. -/
theorem pop {f : ν} (room : ∀ m, before.limit = some m → before.depth < m)
    (h : Settles (before.entered f) after) : Settles before after.pop := by
  refine ⟨frames_pop h.frames, after.limit_pop.trans h.limit, fun m limited => ?_,
    (unmatched_pop h.frames).trans h.unmatched⟩
  have below := room m limited
  calc after.pop.peak
    _ = after.peak := after.peak_pop
    _ ≤ max (max before.peak (before.depth + 1)) m := h.peak_le m limited
    _ ≤ max before.peak m := by omega

end Settles

end CallStack

/-- The call stack settles between two states. -/
def State.Settles (s t : State ν) : Prop := s.stack.Settles t.stack

theorem State.Settles.trans {s t u : State ν} (h : s.Settles t) (h' : t.Settles u) : s.Settles u :=
  CallStack.Settles.trans h h'

namespace Run

variable {x : Eval ν α}

theorem settles_act (cx : Context ν)
    (f : Chain ν → Printer → Except Cause α × Chain ν × Printer) :
    Within State.Settles (Eval.act cx f) := Within.act cx fun s => .refl s.stack

theorem settles_inNewScope (h : Within State.Settles x) :
    Within State.Settles (Eval.inNewScope x) := Within.inNewScope h fun _ _ => id

/-- A refused call is not removed, since it was never added; every other call is. -/
theorem settles_activate [DecidableEq ν] (cx : Context ν) (f : ν) (arguments : List (ν × Value))
    (h : Within State.Settles x) : Within State.Settles (Eval.activate cx f arguments x) :=
  Within.activate cx f arguments h (fun s => .refl s.stack) fun _ _ room inside =>
    CallStack.Settles.pop room inside

end Run

variable [DecidableEq ν]

/-- Every part of an evaluation settles the calls. -/
theorem Congruence.settles (cx : Context ν) :
    Congruence cx cx Scoping.free fun _ {_} x _ => Run.Within State.Settles x :=
  .ofActs rfl rfl
    (fun _ => .exhausted)
    (fun f _ => Run.settles_act cx f)
    (.bind .trans)
    Run.settles_inNewScope
    fun f arguments => Run.settles_activate cx f arguments

theorem settles_eval (cx : Context ν) (fuel : Nat) (e : Expr ν) :
    Run.Within State.Settles (eval cx fuel e) :=
  (Congruence.settles cx).eval (Nat.le_refl fuel) e (i := ()) (Scoping.free_admits _ _)

namespace Interpreter

variable {label : ν → String}

/-- Forms are executed one after another, as many of them as wanted. Each comes to an end, and the
next one is executed also after an error. -/
inductive Executes (label : ν → String) : Interpreter ν → List (Form ν) →
    List (Outcome (Interpreter ν) EvalError (Option Value)) → Prop
  | stop (interp : Interpreter ν) (forms : List (Form ν)) : Executes label interp forms []
  | form {interp after : Interpreter ν} {form : Form ν} {rest : List (Form ν)}
      {out : Outcome (Interpreter ν) EvalError (Option Value)}
      {outs : List (Outcome (Interpreter ν) EvalError (Option Value))} :
      Outcome.Converges (interp.execute label · form) out → out.after? = some after →
        Executes label after rest outs → Executes label interp (form :: rest) (out :: outs)

omit [DecidableEq ν] in
theorem settles_run {interp after : Interpreter ν} {scope : Nat} {x : Eval ν α}
    (h : Run.Within State.Settles x) (ended : (interp.run scope x).after? = some after) :
    interp.stack.Settles after.stack := by
  rw [after?_run, Option.map_eq_some_iff] at ended
  obtain ⟨t, reached, rfl⟩ := ended
  exact h _ t reached

theorem settles_execute {interp after : Interpreter ν} {fuel : Nat} {form : Form ν}
    (ended : (interp.execute label fuel form).after? = some after) :
    interp.stack.Settles after.stack := by
  cases form with
  | expr e =>
      have same : (interp.execute label fuel (.expr e)).after? =
          (interp.eval label fuel root e).after? := by
        rw [execute_expr]
        cases interp.eval label fuel root e <;> rfl
      rw [same] at ended
      exact settles_run (settles_eval _ fuel e) ended
  | function fn =>
      cases ended
      exact .refl interp.stack

/-- What one form settles, a sequence of forms settles. -/
theorem Executes.settles {interp : Interpreter ν} {forms : List (Form ν)}
    {outs : List (Outcome (Interpreter ν) EvalError (Option Value))}
    (h : Executes label interp forms outs) :
    ∀ out ∈ outs, ∀ after, out.after? = some after → interp.stack.Settles after.stack := by
  induction h with
  | stop interp forms => nofun
  | @form interp between form rest out outs converges ended _ ih =>
      obtain ⟨-, fuel, rfl⟩ := converges
      have first := settles_execute ended
      intro out mem after ended'
      rcases List.mem_cons.1 mem with rfl | mem
      · rw [ended] at ended'
        cases ended'
        exact first
      · exact first.trans (ih out mem after ended')

/-- Wherever an expression, a body, a write or a call ends, the call stack has settled, whatever
calls were active before. Forms that are executed one after another settle it too, so if no call is
active at first, none is after any of them. -/
theorem calls_balanced :
    (∀ (cx : Context ν) (fuel : Nat) (s t : State ν),
      (∀ e, (MiniLisp.eval cx fuel e s).after? = some t → s.stack.Settles t.stack) ∧
      (∀ stmts last, (Eval.body (MiniLisp.eval cx fuel) stmts last s).after? = some t →
        s.stack.Settles t.stack) ∧
      (∀ target v, (Eval.write cx fuel target v s).after? = some t → s.stack.Settles t.stack) ∧
      ∀ f args, (Eval.call cx (MiniLisp.eval cx fuel) f args s).after? = some t →
        s.stack.Settles t.stack) ∧
    ∀ (label : ν → String) (interp : Interpreter ν) forms outs,
      Executes label interp forms outs → ∀ out ∈ outs, ∀ after, out.after? = some after →
        interp.stack.Settles after.stack ∧
          (interp.stack.frames = [] → after.stack.frames = []) := by
  constructor
  · intro cx fuel s t
    have all := Congruence.settles cx
    have le := Nat.le_refl fuel
    have admits := @Scoping.free_admits ν _ cx.functions
    refine ⟨fun e ended => all.eval le e (i := ()) (admits _ _) s t ended,
      fun stmts last ended => all.evalBody le stmts last (i := ()) (admits _ _) s t ended,
      fun target v ended => all.write le target v (i := ()) (admits _ _) s t ended,
      fun f args ended => all.evalCall le f args (i := ()) (admits _ _) s t ended⟩
  · intro label interp forms outs executes out mem after ended
    have settles := executes.settles out mem after ended
    exact ⟨settles, settles.frames.trans⟩

/-- A form that runs into the limit leaves no call behind, and the form after it starts afresh: one
call was active at once, and all removals found one. -/
theorem calls_balanced_chained :
    ∃ first second after after',
      Executes toString (chained (some 1)) [.expr (.call 8 []), .expr (.call 9 [])]
        [first, second] ∧
      first.after? = some after ∧ second.after? = some after' ∧
      first.failure?.map EvalError.cause = some (.recursionLimit 1) ∧
      after.stack.frames = [] ∧ after'.stack.frames = [] ∧
      after'.stack.peak ≤ 1 ∧ after'.stack.unmatched = 0 := by
  let first := (chained (some 1)).execute toString 5 (.expr (.call 8 []))
  have ends : first.after?.isSome := by decide +kernel
  have fails : first.failure?.map EvalError.cause = some (.recursionLimit 1) := by decide +kernel
  obtain ⟨after, ended⟩ := Option.isSome_iff_exists.1 ends
  let second := after.execute toString 5 (.expr (.call 9 []))
  have ends' : (first.after?.bind fun after =>
      (after.execute toString 5 (.expr (.call 9 []))).after?).isSome := by decide +kernel
  rw [ended] at ends'
  obtain ⟨after', ended'⟩ := Option.isSome_iff_exists.1 ends'
  have executes : Executes toString (chained (some 1)) [.expr (.call 8 []), .expr (.call 9 [])]
      [first, second] :=
    .form (.of_after? ended) ended (.form (.of_after? ended') ended' (.stop after' []))
  have settled := calls_balanced.2 toString _ _ _ executes first (by simp) after ended
  have settled' := calls_balanced.2 toString _ _ _ executes second (by simp) after' ended'
  exact ⟨first, second, after, after', executes, ended, ended', fails, settled.2 rfl,
    settled'.2 rfl, settled'.1.peak_le 1 rfl, settled'.1.unmatched⟩

end Interpreter

end MiniLisp
