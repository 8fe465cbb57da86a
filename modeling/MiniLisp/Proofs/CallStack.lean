import MiniLisp.Eval.State
import MiniLisp.Proofs.Outcome

/-!
What the stack of active calls does. A push adds the call or is refused at the limit, and nothing
else can happen (`push_cases`), so a call is refused or runs its body (`Eval.activate_cases`). A
backtrace shows the active calls and nothing else of the stack (`attach_congr`), innermost first
(`attach_ofCause`), and it does not change an error that has one (`attach_attach`); no backtrace changes
the cause of an error.
-/

namespace MiniLisp

variable {ν α : Type}

namespace CallStack

/-- The stack with another active call. -/
def entered (stack : CallStack ν) (f : ν) : CallStack ν :=
  { stack with frames := f :: stack.frames, peak := max stack.peak (stack.depth + 1) }

theorem push_cases (stack : CallStack ν) (f : ν) :
    (∃ limit, stack.limit = some limit ∧ limit ≤ stack.depth ∧
      stack.push f = .error (.recursionLimit limit)) ∨
    ((∀ limit, stack.limit = some limit → stack.depth < limit) ∧
      stack.push f = .ok (stack.entered f)) := by
  cases hlimit : stack.limit with
  | none => exact .inr ⟨nofun, by simp [push, entered, hlimit]⟩
  | some limit =>
      by_cases full : limit ≤ stack.depth
      · exact .inl ⟨limit, rfl, full, by simp [push, hlimit, full]⟩
      · refine .inr ⟨fun l hl => ?_, by simp [push, entered, hlimit, full]⟩
        cases hl
        exact Nat.lt_of_not_le full

theorem frames_pop {stack : CallStack ν} {f : ν} {rest : List ν} (h : stack.frames = f :: rest) :
    stack.pop.frames = rest := by rw [pop, h]

theorem limit_pop (stack : CallStack ν) : stack.pop.limit = stack.limit := by
  unfold pop
  split <;> rfl

theorem peak_pop (stack : CallStack ν) : stack.pop.peak = stack.peak := by
  unfold pop
  split <;> rfl

theorem attach_congr {stack stack' : CallStack ν} (h : stack'.frames = stack.frames)
    (label : ν → String) (error : EvalError) :
    stack'.attach label error = stack.attach label error := by
  unfold attach isEmpty capture
  rw [h]

theorem attach_of_idle {stack : CallStack ν} (h : stack.frames = []) (label : ν → String)
    (error : EvalError) : stack.attach label error = error := by
  unfold attach isEmpty
  rw [h]
  rfl

theorem attach_of_active {stack : CallStack ν} {f : ν} {rest : List ν}
    (h : stack.frames = f :: rest) (label : ν → String) (error : EvalError) :
    stack.attach label error = error.withBacktrace ⟨(f :: rest).map label⟩ := by
  unfold attach isEmpty capture
  rw [h]
  rfl

/-- An error that gets its backtrace at once has the names of the active calls in it. -/
theorem attach_ofCause (stack : CallStack ν) (label : ν → String) (cause : Cause) :
    stack.attach label (.ofCause cause) = stack.stamp label cause := by
  unfold attach isEmpty capture stamp EvalError.ofCause EvalError.withBacktrace
  dsimp only
  split <;> rfl

theorem stamp_congr {stack stack' : CallStack ν} (h : stack'.frames = stack.frames)
    (label : ν → String) (cause : Cause) : stack'.stamp label cause = stack.stamp label cause := by
  unfold stamp
  rw [h]

theorem cause_attach (stack : CallStack ν) (label : ν → String) (error : EvalError) :
    (stack.attach label error).cause = error.cause := by
  unfold attach EvalError.withBacktrace
  split
  · rfl
  · split <;> rfl

/-- The backtrace that an active call has given is kept. -/
theorem attach_attach (stack : CallStack ν) {inner : CallStack ν} (active : inner.frames ≠ [])
    (label : ν → String) (error : EvalError) :
    stack.attach label (inner.attach label error) = inner.attach label error := by
  obtain ⟨f, rest, h⟩ := List.exists_cons_of_ne_nil active
  rw [attach_of_active h]
  unfold attach
  split
  · rfl
  · exact error.withBacktrace_withBacktrace _ _

end CallStack

theorem Context.cause_raise (cx : Context ν) (stack : CallStack ν) (cause : Cause) :
    (cx.raise stack cause).cause = cause := by
  unfold raise
  split <;> rfl

theorem Context.cause_leave (cx : Context ν) (stack : CallStack ν) (e : EvalError) :
    (cx.leave stack e).cause = e.cause := by
  unfold leave
  split
  · exact stack.cause_attach cx.label e
  · rfl

namespace Eval

/-- A new scope ends with the computation that runs in it. -/
theorem inNewScope_apply (x : Eval ν α) (s : State ν) :
    inNewScope x s = (x { s with scopes := s.scopes.enter }).exit
      (fun t => { t with scopes := t.scopes.leave }) fun _ e => e := by
  unfold inNewScope
  cases x { s with scopes := s.scopes.enter } <;> rfl

variable [DecidableEq ν]

theorem activate_of_full (cx : Context ν) (f : ν) (arguments : List (ν × Value)) (x : Eval ν α)
    {s : State ν} {limit : Nat} (hlimit : s.stack.limit = some limit)
    (full : limit ≤ s.stack.depth) :
    activate cx f arguments x s = .error (cx.raise s.stack (.recursionLimit limit)) s := by
  have refused : s.stack.push f = .error (.recursionLimit limit) := by
    simp [CallStack.push, hlimit, full]
  rw [activate, refused]

theorem activate_of_room (cx : Context ν) (f : ν) (arguments : List (ν × Value)) (x : Eval ν α)
    {s : State ν} (room : ∀ limit, s.stack.limit = some limit → s.stack.depth < limit) :
    activate cx f arguments x s =
      (x (s.enterCall (s.stack.entered f) arguments)).exit s.leaveCall
        fun t => cx.leave t.stack := by
  have started : s.stack.push f = .ok (s.stack.entered f) := by
    rcases s.stack.push_cases f with ⟨limit, hlimit, full, -⟩ | ⟨-, started⟩
    · exact absurd full (Nat.not_le_of_lt (room limit hlimit))
    · exact started
  rw [activate, started]
  dsimp only
  cases x (s.enterCall (s.stack.entered f) arguments) <;> rfl

/-- A call is refused for the limit, or it runs its body and ends with it. -/
theorem activate_cases (cx : Context ν) (f : ν) (arguments : List (ν × Value)) (x : Eval ν α)
    (s : State ν) :
    (∃ limit, s.stack.limit = some limit ∧ limit ≤ s.stack.depth ∧
      activate cx f arguments x s = .error (cx.raise s.stack (.recursionLimit limit)) s) ∨
    ((∀ limit, s.stack.limit = some limit → s.stack.depth < limit) ∧
      activate cx f arguments x s =
        (x (s.enterCall (s.stack.entered f) arguments)).exit s.leaveCall
          fun t => cx.leave t.stack) := by
  rcases s.stack.push_cases f with ⟨limit, hlimit, full, -⟩ | ⟨room, -⟩
  · exact .inl ⟨limit, hlimit, full, activate_of_full cx f arguments x hlimit full⟩
  · exact .inr ⟨room, activate_of_room cx f arguments x room⟩

end Eval

namespace Run.Within

variable {R R' : State ν → State ν → Prop} {x : Eval ν α}

/-- What is true of every end in the new scope is true of every end once the scope is left. -/
theorem inNewScope (h : Within R' x) (left : ∀ s t, R' { s with scopes := s.scopes.enter } t →
    R s { t with scopes := t.scopes.leave }) : Within R (Eval.inNewScope x) := by
  intro s t ended
  rw [Eval.inNewScope_apply, Outcome.after?_exit, Option.map_eq_some_iff] at ended
  obtain ⟨after, reached, rfl⟩ := ended
  exact left s after (h _ after reached)

/-- A refused call changes nothing, and every other one ends as its body does. -/
theorem activate [DecidableEq ν] (cx : Context ν) (f : ν) (arguments : List (ν × Value))
    (h : Within R' x) (refl : ∀ s, R s s)
    (left : ∀ s t, (∀ m, s.stack.limit = some m → s.stack.depth < m) →
      R' (s.enterCall (s.stack.entered f) arguments) t → R s (s.leaveCall t)) :
    Within R (Eval.activate cx f arguments x) := by
  intro s t ended
  rcases Eval.activate_cases cx f arguments x s with ⟨limit, -, -, refused⟩ | ⟨room, started⟩
  · rw [refused] at ended
    cases ended
    exact refl s
  · rw [started, Outcome.after?_exit, Option.map_eq_some_iff] at ended
    obtain ⟨after, reached, rfl⟩ := ended
    exact left s after room (h _ after reached)

end Run.Within

end MiniLisp
