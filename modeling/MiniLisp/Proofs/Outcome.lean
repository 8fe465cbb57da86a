import MiniLisp.Eval.Outcome

/-!
Properties of computations that may run out of fuel. A family of runs converges to an outcome if
some amount of fuel reaches it; a computation moves within a relation if every end of it, a value or
an error, stands in the relation to its start. Main statements: sequences move within a transitive
relation if their parts do (`Run.Within.bind`), and runs that keep their answers have one outcome
(`Outcome.Converges.unique`).
-/

namespace MiniLisp

variable {σ ε α β : Type}

namespace Outcome

/-- The state at the end of a value or an error. -/
def after? : Outcome σ ε α → Option σ
  | value _ after => some after
  | error _ after => some after
  | exhausted => none

/-- The error, if the outcome is one. -/
def failure? : Outcome σ ε α → Option ε
  | error e _ => some e
  | _ => none

theorem failure?_eq_some {out : Outcome σ ε α} {e : ε} :
    out.failure? = some e ↔ ∃ after, out = .error e after := by
  cases out <;> simp [failure?]

/-- The value, if the outcome is one. -/
def value? : Outcome σ ε α → Option α
  | value a _ => some a
  | _ => none

theorem value?_eq_some {out : Outcome σ ε α} {a : α} :
    out.value? = some a ↔ ∃ after, out = .value a after := by
  cases out <;> simp [value?]

/-- With some amount of fuel the outcome is reached, and it is a value or an error. -/
def Converges (run : Nat → Outcome σ ε α) (out : Outcome σ ε α) : Prop :=
  out ≠ exhausted ∧ ∃ fuel, run fuel = out

namespace Converges

variable {run : Nat → Outcome σ ε α}

theorem of_value {fuel : Nat} {a : α} {after : σ} (h : run fuel = .value a after) :
    Converges run (.value a after) := ⟨nofun, fuel, h⟩

theorem of_error {fuel : Nat} {e : ε} {after : σ} (h : run fuel = .error e after) :
    Converges run (.error e after) := ⟨nofun, fuel, h⟩

theorem of_after? {fuel : Nat} {after : σ} (h : (run fuel).after? = some after) :
    Converges run (run fuel) := by
  refine ⟨fun out => ?_, fuel, rfl⟩
  rw [out] at h
  cases h

/-- If more fuel never changes an answer, there is at most one answer. -/
theorem unique (stable : ∀ n m, n ≤ m → run n ≠ exhausted → run m = run n)
    {out out' : Outcome σ ε α} (h : Converges run out) (h' : Converges run out') : out = out' := by
  obtain ⟨done, n, rfl⟩ := h
  obtain ⟨done', m, rfl⟩ := h'
  rcases Nat.le_total n m with le | le
  · exact (stable n m le done).symm
  · exact stable m n le done'

end Converges

/-- What an outcome becomes on the way out of a computation: the state changes, and an error may. -/
def exit (leave : σ → σ) (mark : σ → ε → ε) : Outcome σ ε α → Outcome σ ε α
  | value a after => value a (leave after)
  | error e after => error (mark after e) (leave after)
  | exhausted => exhausted

section Exit

variable {leave : σ → σ} {mark : σ → ε → ε} {out : Outcome σ ε α}

theorem exit_eq_value {a : α} {t : σ} :
    out.exit leave mark = .value a t ↔ ∃ u, out = .value a u ∧ leave u = t := by
  cases out <;> simp [exit, and_assoc]

theorem exit_eq_error {e : ε} {t : σ} :
    out.exit leave mark = .error e t ↔ ∃ e' u, out = .error e' u ∧ mark u e' = e ∧ leave u = t := by
  cases out <;> simp [exit, and_assoc]

theorem exit_eq_exhausted : out.exit leave mark = .exhausted ↔ out = .exhausted := by
  cases out <;> simp [exit]

theorem after?_exit : (out.exit leave mark).after? = out.after?.map leave := by
  cases out <;> rfl

end Exit

def map (f : α → β) : Outcome σ ε α → Outcome σ ε β
  | value a after => value (f a) after
  | error e after => error e after
  | exhausted => exhausted

theorem converges_map {f : α → β} {run : Nat → Outcome σ ε α} {out : Outcome σ ε β} :
    Converges (fun n => (run n).map f) out ↔ ∃ first, Converges run first ∧ first.map f = out := by
  constructor
  · rintro ⟨done, n, rfl⟩
    exact ⟨run n, ⟨fun lacking => done (congrArg (Outcome.map f) lacking), n, rfl⟩, rfl⟩
  · rintro ⟨first, ⟨done, n, rfl⟩, rfl⟩
    refine ⟨?_, n, rfl⟩
    cases h : run n with
    | value a after => nofun
    | error e after => nofun
    | exhausted => exact absurd h done

theorem after?_map {f : α → β} {out : Outcome σ ε α} : (out.map f).after? = out.after? := by
  cases out <;> rfl

theorem map_eq_error {f : α → β} {out : Outcome σ ε α} {e : ε} {after : σ} :
    out.map f = .error e after ↔ out = .error e after := by
  cases out <;> simp [map]

/-- If the first outcome is a value or an error, the second one is the same in a related state. -/
inductive Follows (S : σ → σ → Prop) : Outcome σ ε α → Outcome σ ε α → Prop
  | value {a : α} {s t : σ} : S s t → Follows S (.value a s) (.value a t)
  | error {e : ε} {s t : σ} : S s t → Follows S (.error e s) (.error e t)
  | exhausted {out : Outcome σ ε α} : Follows S .exhausted out

theorem Follows.exit {S S' : σ → σ → Prop} {out out' : Outcome σ ε α} {leave leave' : σ → σ}
    {mark mark' : σ → ε → ε} (h : Follows S out out') (left : ∀ s t, S s t → S' (leave s) (leave' t))
    (marked : ∀ s t e, S s t → mark' t e = mark s e) :
    Follows S' (out.exit leave mark) (out'.exit leave' mark') := by
  cases h with
  | value after => exact .value (left _ _ after)
  | @error e s t after =>
      show Follows S' (.error (mark s e) _) (.error (mark' t e) _)
      rw [marked s t e after]
      exact .error (left s t after)
  | exhausted => exact .exhausted

theorem Follows.map {S : σ → σ → Prop} {out out' : Outcome σ ε α} (h : Follows S out out')
    (f : α → β) : Follows S (out.map f) (out'.map f) := by
  cases h with
  | value after => exact .value after
  | error after => exact .error after
  | exhausted => exact .exhausted

theorem Follows.ne_exhausted {S : σ → σ → Prop} {out out' : Outcome σ ε α}
    (h : Follows S out out') (done : out ≠ .exhausted) : out' ≠ .exhausted := by
  cases h with
  | value _ => nofun
  | error _ => nofun
  | exhausted => exact absurd rfl done

/-- If runs follow each other with all fuels, the second family converges when the first does. -/
theorem Converges.follows {S : σ → σ → Prop} {run run' : Nat → Outcome σ ε α} {out : Outcome σ ε α}
    (h : Converges run out) (step : ∀ fuel, Follows S (run fuel) (run' fuel)) :
    ∃ out', Converges run' out' ∧ Follows S out out' := by
  obtain ⟨done, fuel, rfl⟩ := h
  exact ⟨run' fuel, ⟨(step fuel).ne_exhausted done, fuel, rfl⟩, step fuel⟩

end Outcome

namespace Run

section Bind

variable {x : Run σ ε α} {f : α → Run σ ε β} {s t : σ}

theorem bind_of_value {a : α} (h : x s = .value a t) : (x >>= f) s = f a t := by
  rw [bind_apply, h]

theorem bind_of_error {e : ε} (h : x s = .error e t) : (x >>= f) s = .error e t := by
  rw [bind_apply, h]

theorem bind_of_exhausted (h : x s = .exhausted) : (x >>= f) s = .exhausted := by
  rw [bind_apply, h]

theorem bind_eq_error {e : ε} {u : σ} :
    (x >>= f) s = .error e u ↔
      x s = .error e u ∨ ∃ a t, x s = .value a t ∧ f a t = .error e u := by
  rw [bind_apply]
  cases x s <;> simp [and_assoc]

end Bind

/-- From related states, the second computation ends as the first does, in related states. -/
def Follows (S : σ → σ → Prop) (x y : Run σ ε α) : Prop :=
  ∀ s t, S s t → Outcome.Follows S (x s) (y t)

theorem Follows.bind {S : σ → σ → Prop} {x y : Run σ ε α} {f g : α → Run σ ε β} (hx : Follows S x y)
    (hf : ∀ a, Follows S (f a) (g a)) : Follows S (x >>= f) (y >>= g) := by
  intro s t h
  rw [bind_apply, bind_apply]
  have both := hx s t h
  generalize x s = out, y t = out' at both ⊢
  cases both with
  | value after => exact hf _ _ _ after
  | error after => exact .error after
  | exhausted => exact .exhausted

/-- Every end of the computation stands in the relation to its start. -/
def Within (R : σ → σ → Prop) (x : Run σ ε α) : Prop :=
  ∀ s t, (x s).after? = some t → R s t

namespace Within

variable {R : σ → σ → Prop}

theorem pure (refl : ∀ s, R s s) (a : α) : Within R (pure a : Run σ ε α) := by
  intro s t h
  cases h
  exact refl s

theorem exhausted : Within R (exhausted : Run σ ε α) := by
  intro s t h
  cases h

theorem bind (trans : ∀ {s t u}, R s t → R t u → R s u) {x : Run σ ε α} {f : α → Run σ ε β}
    (hx : Within R x) (hf : ∀ a, Within R (f a)) : Within R (x >>= f) := by
  intro s u h
  rw [bind_apply] at h
  cases hxs : x s with
  | value a t =>
      rw [hxs] at h
      exact trans (hx s t (by rw [hxs]; rfl)) (hf a t u h)
  | error e t =>
      rw [hxs] at h
      cases h
      exact hx s u (by rw [hxs]; rfl)
  | exhausted =>
      rw [hxs] at h
      cases h

end Within

end Run

end MiniLisp
