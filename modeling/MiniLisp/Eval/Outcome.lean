/-!
Computations that read and change a state and may fail or run out of fuel. A value and an error both
come with the state they leave behind; exhausted fuel is neither of them. Main statement: such
computations form a lawful monad.
-/

namespace MiniLisp

variable {σ ε α β : Type}

inductive Outcome (σ ε α : Type) where
  | value (a : α) (after : σ)
  | error (e : ε) (after : σ)
  | exhausted

def Run (σ ε α : Type) : Type := σ → Outcome σ ε α

namespace Run

@[always_inline, inline] protected def pure (a : α) : Run σ ε α := fun s => .value a s

@[always_inline, inline] protected def bind (x : Run σ ε α) (f : α → Run σ ε β) : Run σ ε β := fun s =>
  match x s with
  | .value a after => f a after
  | .error e after => .error e after
  | .exhausted => .exhausted

@[always_inline] instance : Monad (Run σ ε) where
  pure := Run.pure
  bind := Run.bind

/-- Gives up for lack of fuel. -/
def exhausted : Run σ ε α := fun _ => .exhausted

/-- Counts the uses of a computation, also those that fail. -/
def counted (f : β → Run σ ε α) (b : β) : Run (σ × Nat) ε α := fun s =>
  match f b s.1 with
  | .value a after => .value a (after, s.2 + 1)
  | .error e after => .error e (after, s.2 + 1)
  | .exhausted => .exhausted

instance : LawfulMonad (Run σ ε) :=
  .mk' _
    (fun x => by
      funext s
      change Run.bind x (fun a => Run.pure a) s = x s
      unfold Run.bind
      cases x s <;> rfl)
    (fun _ _ => rfl)
    (fun x f g => by
      funext s
      change Run.bind (Run.bind x f) g s = Run.bind x (fun a => Run.bind (f a) g) s
      unfold Run.bind
      cases x s <;> rfl)

theorem pure_apply (a : α) (s : σ) : (pure a : Run σ ε α) s = .value a s := rfl

theorem bind_apply (x : Run σ ε α) (f : α → Run σ ε β) (s : σ) :
    (x >>= f) s = match x s with
      | .value a after => f a after
      | .error e after => .error e after
      | .exhausted => .exhausted := rfl

theorem exhausted_apply (s : σ) : (exhausted : Run σ ε α) s = .exhausted := rfl

end Run

end MiniLisp
