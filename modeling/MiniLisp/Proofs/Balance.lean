import MiniLisp.Proofs.Act
import MiniLisp.Proofs.CallStack

/-!
Calls end in the order in which they begin. A computation of this kind leaves the active calls and
their limit as it found them, and the most calls active at once can only grow. New scopes and calls
keep this (`Run.Balanced.inNewScope`, `Run.Balanced.activate`), so every evaluation of operands or of a
body is of the kind (`balanced_all`, `balanced_body`).
-/

namespace MiniLisp

variable {ν α β : Type}

/-- The active calls and their limit are the same, and no fewer calls were active at once. -/
structure State.Balanced (s t : State ν) : Prop where
  frames : t.stack.frames = s.stack.frames
  limit : t.stack.limit = s.stack.limit
  peak : s.stack.peak ≤ t.stack.peak

namespace State.Balanced

variable {s t u : State ν}

theorem refl (s : State ν) : Balanced s s := ⟨rfl, rfl, Nat.le_refl _⟩

theorem trans (h : Balanced s t) (h' : Balanced t u) : Balanced s u :=
  ⟨h'.frames.trans h.frames, h'.limit.trans h.limit, Nat.le_trans h.peak h'.peak⟩

/-- The call that began is the one that ends. -/
theorem leaveCall [DecidableEq ν] {f : ν} {arguments : List (ν × Value)}
    (h : Balanced (s.enterCall (s.stack.entered f) arguments) t) : Balanced s (s.leaveCall t) := by
  refine ⟨CallStack.frames_pop h.frames, t.stack.limit_pop.trans h.limit, ?_⟩
  calc s.stack.peak
    _ ≤ max s.stack.peak (s.stack.depth + 1) := Nat.le_max_left _ _
    _ ≤ t.stack.peak := h.peak
    _ = t.stack.pop.peak := t.stack.peak_pop.symm

end State.Balanced

/-- Every end of the computation has the active calls of its start. -/
def Run.Balanced (x : Eval ν α) : Prop := Run.Within State.Balanced x

namespace Run.Balanced

variable {x : Eval ν α}

theorem of_value (h : Balanced x) {s t : State ν} {a : α} (hx : x s = .value a t) :
    s.Balanced t := h s t (by rw [hx]; rfl)

theorem of_error (h : Balanced x) {s t : State ν} {e : EvalError} (hx : x s = .error e t) :
    s.Balanced t := h s t (by rw [hx]; rfl)

theorem act (cx : Context ν) (f : Chain ν → Printer → Except Cause α × Chain ν × Printer) :
    Balanced (Eval.act cx f) := Within.act cx fun _ => ⟨rfl, rfl, Nat.le_refl _⟩

theorem bind {f : α → Eval ν β} (h : Balanced x) (hf : ∀ a, Balanced (f a)) : Balanced (x >>= f) :=
  Within.bind (fun h h' => h.trans h') h hf

theorem inNewScope (h : Balanced x) : Balanced (Eval.inNewScope x) :=
  Within.inNewScope h fun _ _ inside => ⟨inside.frames, inside.limit, inside.peak⟩

theorem activate [DecidableEq ν] (cx : Context ν) (f : ν) (arguments : List (ν × Value))
    (h : Balanced x) : Balanced (Eval.activate cx f arguments x) :=
  Within.activate cx f arguments h .refl fun _ _ _ inside => inside.leaveCall

end Run.Balanced

variable [DecidableEq ν]

/-- Every part of an evaluation keeps the calls in order. -/
theorem Congruence.balance (cx : Context ν) :
    Congruence cx cx Scoping.free fun _ {_} x _ => Run.Balanced x :=
  .ofActs rfl rfl
    (fun _ => .exhausted)
    (fun f _ => .act cx f)
    .bind
    .inNewScope
    fun f arguments => .activate cx f arguments

theorem balanced_all (cx : Context ν) (fuel : Nat) (es : List (Expr ν)) :
    Run.Balanced (Eval.all (eval cx fuel) es) :=
  (Congruence.balance cx).evalAll (Nat.le_refl fuel) es (i := ()) (Scoping.free_admits _ _)

theorem balanced_body (cx : Context ν) (fuel : Nat) (stmts : List (Expr ν)) (last : Value) :
    Run.Balanced (Eval.body (eval cx fuel) stmts last) :=
  (Congruence.balance cx).evalBody (Nat.le_refl fuel) stmts last (i := ()) (Scoping.free_admits _ _)

end MiniLisp
