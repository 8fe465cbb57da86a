import MiniLisp.Proofs.Convergence
import MiniLisp.Proofs.Footprint

/-!
Computations of an interpreter one after another. A computation that keeps the length of the chain leaves
an interpreter in which the next one starts where it ended (`Interpreter.load_save`), and what the next one
leaves replaces what it left (`Interpreter.save_save`). So a sequence under a scope ends with the error of
its first part, or as its second part does in the interpreter that the first one leaves
(`Interpreter.converges_bind`).
-/

namespace MiniLisp

variable {ν σ τ ε α β : Type}

namespace Outcome

/-- The outcome with another view of the state it leaves. -/
def mapAfter (f : σ → τ) : Outcome σ ε α → Outcome τ ε α
  | value a after => value a (f after)
  | error e after => error e (f after)
  | exhausted => exhausted

variable {f : σ → τ} {out : Outcome σ ε α}

theorem mapAfter_eq_value {a : α} {t : τ} :
    out.mapAfter f = .value a t ↔ ∃ s, out = .value a s ∧ f s = t := by
  cases out <;> simp [mapAfter, and_assoc]

theorem mapAfter_eq_error {e : ε} {t : τ} :
    out.mapAfter f = .error e t ↔ ∃ s, out = .error e s ∧ f s = t := by
  cases out <;> simp [mapAfter, and_assoc]

theorem mapAfter_eq_exhausted : out.mapAfter f = .exhausted ↔ out = .exhausted := by
  cases out <;> simp [mapAfter]

theorem converges_mapAfter {outs : Nat → Outcome σ ε α} {out : Outcome τ ε α} :
    Converges (fun n => (outs n).mapAfter f) out ↔
      ∃ inside, Converges outs inside ∧ inside.mapAfter f = out := by
  constructor
  · rintro ⟨done, n, rfl⟩
    exact ⟨outs n, ⟨mt mapAfter_eq_exhausted.2 done, n, rfl⟩, rfl⟩
  · rintro ⟨inside, ⟨done, n, rfl⟩, rfl⟩
    exact ⟨mt mapAfter_eq_exhausted.1 done, n, rfl⟩

end Outcome

/-- The chains of scopes are equally long. -/
def State.Level (s t : State ν) : Prop := t.scopes.depth = s.scopes.depth

theorem within_level_eval [DecidableEq ν] (cx : Context ν) (fuel : Nat) (e : Expr ν) :
    Run.Within State.Level (eval cx fuel e) := fun s t ended =>
  Chain.Moves.depth_eq (within_eval cx fuel e s t ended)

/-- A family of computations ends in a state with a chain of the same length. -/
theorem level_of_reaches {x : Nat → Eval ν α} (keeps : ∀ n, Run.Within State.Level (x n))
    {out : Outcome (State ν) EvalError α} {s t : State ν} (h : Run.Reaches x s out)
    (ended : out.after? = some t) : s.Level t := by
  obtain ⟨-, fuel, rfl⟩ := h
  exact keeps fuel s t ended

namespace Interpreter

variable {interp mid : Interpreter ν} {scope : Nat} {s t : State ν} {label : ν → String}

theorem save_load (interp : Interpreter ν) (scope : Nat) :
    interp.save scope (interp.load scope) = interp := by
  rw [save, load, Store.commit_view]

/-- The next computation starts where the last one ended. -/
theorem load_save (exists_scope : scope < interp.store.size) (level : (interp.load scope).Level s) :
    (interp.save scope s).load scope = s := by
  rw [load, save, interp.store.view_commit exists_scope level]

/-- Of what two computations leave in turn, the later one stays. -/
theorem save_save (exists_scope : scope < interp.store.size) (level : (interp.load scope).Level s)
    (level' : s.Level t) : (interp.save scope s).save scope t = interp.save scope t := by
  have depth : t.scopes.depth = (interp.store.view scope).depth := level'.trans level
  rw [save, save, save, interp.store.commit_commit exists_scope level depth]

theorem run_eq (interp : Interpreter ν) (scope : Nat) (x : Eval ν α) :
    interp.run scope x = (x (interp.load scope)).mapAfter (interp.save scope) := by
  unfold run
  cases x (interp.load scope) <;> rfl

theorem run_save (exists_scope : scope < interp.store.size) (level : (interp.load scope).Level s)
    {x : Eval ν α} (keeps : Run.Within State.Level x) :
    (interp.save scope s).run scope x = (x s).mapAfter (interp.save scope) := by
  rw [run_eq, load_save exists_scope level]
  have level' := keeps s
  cases ended : x s with
  | value a t =>
      rw [ended] at level'
      rw [Outcome.mapAfter, Outcome.mapAfter, save_save exists_scope level (level' t rfl)]
  | error e t =>
      rw [ended] at level'
      rw [Outcome.mapAfter, Outcome.mapAfter, save_save exists_scope level (level' t rfl)]
  | exhausted => rfl

/-- Where a family of computations ends is put back into the interpreter. -/
theorem converges_run {x : Nat → Eval ν α} {out : Outcome (Interpreter ν) EvalError α} :
    Outcome.Converges (fun n => interp.run scope (x n)) out ↔
      ∃ inside, Run.Reaches x (interp.load scope) inside ∧
        inside.mapAfter (interp.save scope) = out := by
  simp only [run_eq]
  exact Outcome.converges_mapAfter

theorem converges_run_save (exists_scope : scope < interp.store.size)
    (level : (interp.load scope).Level s) {x : Nat → Eval ν α}
    (keeps : ∀ n, Run.Within State.Level (x n)) {out : Outcome (Interpreter ν) EvalError α} :
    Outcome.Converges (fun n => (interp.save scope s).run scope (x n)) out ↔
      ∃ inside, Run.Reaches x s inside ∧ inside.mapAfter (interp.save scope) = out := by
  have same : ∀ n, (interp.save scope s).run scope (x n) = (x n s).mapAfter (interp.save scope) :=
    fun n => run_save exists_scope level (keeps n)
  simp only [same]
  exact Outcome.converges_mapAfter

/-- A sequence ends with the error of its first part, or as its second part does in the interpreter that
the first one leaves. -/
theorem converges_bind (exists_scope : scope < interp.store.size) {x : Nat → Eval ν α}
    {f : Nat → α → Eval ν β} (hx : Run.Stable x) (hf : ∀ a, Run.Stable (f · a))
    (keeps : ∀ n, Run.Within State.Level (x n)) (keeps' : ∀ a n, Run.Within State.Level (f n a))
    {out : Outcome (Interpreter ν) EvalError β} :
    Outcome.Converges (fun n => interp.run scope (x n >>= f n)) out ↔
      (∃ a mid, Outcome.Converges (fun n => interp.run scope (x n)) (.value a mid) ∧
        Outcome.Converges (fun n => mid.run scope (f n a)) out) ∨
      ∃ e mid, Outcome.Converges (fun n => interp.run scope (x n)) (.error e mid) ∧
        out = .error e mid := by
  constructor
  · intro ended
    obtain ⟨inside, reached, rfl⟩ := converges_run.1 ended
    rcases (Run.reaches_bind hx hf).1 reached with ⟨a, s, first, second⟩ | ⟨e, s, first, rfl⟩
    · -- The chain is as long as before, so what was put back is what the second part starts with.
      have level := level_of_reaches keeps first rfl
      refine .inl ⟨a, interp.save scope s, converges_run.2 ⟨_, first, rfl⟩, ?_⟩
      exact (converges_run_save exists_scope level (keeps' a)).2 ⟨inside, second, rfl⟩
    · exact .inr ⟨e, interp.save scope s, converges_run.2 ⟨_, first, rfl⟩, rfl⟩
  · rintro (⟨a, mid, first, second⟩ | ⟨e, mid, first, rfl⟩)
    · obtain ⟨inside, reached, saved⟩ := converges_run.1 first
      obtain ⟨s, rfl, rfl⟩ := Outcome.mapAfter_eq_value.1 saved
      have level := level_of_reaches keeps reached rfl
      obtain ⟨inside, reached', rfl⟩ := (converges_run_save exists_scope level (keeps' a)).1 second
      exact converges_run.2 ⟨inside, (Run.reaches_bind hx hf).2 (.inl ⟨a, s, reached, reached'⟩), rfl⟩
    · obtain ⟨inside, reached, saved⟩ := converges_run.1 first
      obtain ⟨s, rfl, rfl⟩ := Outcome.mapAfter_eq_error.1 saved
      exact converges_run.2 ⟨_, (Run.reaches_bind hx hf).2 (.inr ⟨e, s, reached, rfl⟩), rfl⟩

/-- A computation under a scope changes no function, and neither adds nor removes a scope. -/
theorem kept_of_converges {x : Nat → Eval ν α} {out : Outcome (Interpreter ν) EvalError α}
    (h : Outcome.Converges (fun n => interp.run scope (x n)) out) (ended : out.after? = some mid) :
    mid.functions = interp.functions ∧ mid.store.size = interp.store.size := by
  obtain ⟨-, fuel, rfl⟩ := h
  rw [after?_run, Option.map_eq_some_iff] at ended
  obtain ⟨s, -, rfl⟩ := ended
  exact ⟨rfl, interp.store.size_commit scope s.scopes⟩

end Interpreter

end MiniLisp
