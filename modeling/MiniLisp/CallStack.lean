import MiniLisp.Error

/-!
The stack of active calls. It has an optional limit on the number of calls, and it keeps count of the
most calls it has held and of removals that found it empty. Main statement: pushing and popping a call
restores the frames (`frames_pop_push`).
-/

namespace MiniLisp

variable {ν : Type}

structure CallStack (ν : Type) where
  /-- The active calls, innermost first. -/
  frames : List ν
  limit : Option Nat
  /-- The most calls that were active at once. -/
  peak : Nat
  /-- The number of removals from an empty stack. -/
  unmatched : Nat
  deriving DecidableEq

namespace CallStack

def new (limit : Option Nat) : CallStack ν := ⟨[], limit, 0, 0⟩

def depth (stack : CallStack ν) : Nat := stack.frames.length

def isEmpty (stack : CallStack ν) : Bool := stack.frames.isEmpty

/-- A call may become active unless the limit is reached. -/
def push (stack : CallStack ν) (f : ν) : Except Cause (CallStack ν) :=
  let entered :=
    { stack with frames := f :: stack.frames, peak := max stack.peak (stack.depth + 1) }
  match stack.limit with
  | some limit => if limit ≤ stack.depth then .error (.recursionLimit limit) else .ok entered
  | none => .ok entered

def pop (stack : CallStack ν) : CallStack ν :=
  match stack.frames with
  | [] => { stack with unmatched := stack.unmatched + 1 }
  | _ :: rest => { stack with frames := rest }

/-- The backtrace of the active calls. -/
def capture (label : ν → String) (stack : CallStack ν) : Backtrace := ⟨stack.frames.map label⟩

/-- Gives an error the current backtrace, unless it has one or no call is active. -/
def attach (label : ν → String) (stack : CallStack ν) (error : EvalError) : EvalError :=
  if stack.isEmpty then error else error.withBacktrace (stack.capture label)

/-- The error that a cause raises under the active calls: their names, innermost first, or no
backtrace if there are none. -/
def stamp (label : ν → String) (stack : CallStack ν) (cause : Cause) : EvalError :=
  ⟨cause, if stack.frames.isEmpty then none else some ⟨stack.frames.map label⟩⟩

theorem frames_pop_push {stack entered : CallStack ν} {f : ν} (h : stack.push f = .ok entered) :
    entered.pop.frames = stack.frames := by
  unfold push at h
  split at h
  · split at h
    · cases h
    · cases h
      rfl
  · cases h
    rfl

end CallStack

end MiniLisp
