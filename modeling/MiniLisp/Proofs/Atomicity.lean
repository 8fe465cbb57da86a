import MiniLisp.Proofs.Sequencing

/-!
Forms that assign a value. Such a form evaluates the expressions in it from the right-hand side on, and
nothing else (`Interpreter.converges_assignment`). What it then does on its own is atomic: it replaces the
chain by one of the same length, or it fails and changes nothing (`Eval.Atomic`). So a form that fails
leaves what the evaluations of its parts left (`Interpreter.Assigns.leaves`).
-/

namespace MiniLisp

variable {ν α β : Type}

/-- A form that assigns a value. -/
inductive Assignment (ν : Type) where
  | bind (op : BindOp) (x : ν)
  | update (op : UpdateOp) (target : Target ν)

namespace Assignment

/-- The form with its right-hand side. -/
def expr (value : Expr ν) : Assignment ν → Expr ν
  | bind op x => .bind op x value
  | update op target => target.update op value

/-- The expressions in the form, in the order of their evaluation. -/
def parts (value : Expr ν) : Assignment ν → List (Expr ν)
  | bind _ _ => [value]
  | update _ (.var _) => [value]
  | update _ (.element _ index) => [value, index]

end Assignment

namespace Eval

/-- The computation succeeds or fails without a change of the state. -/
def Still (x : Eval ν α) : Prop := ∀ s, (∃ a, x s = .value a s) ∨ ∃ e, x s = .error e s

/-- The computation replaces the chain by one of the same length, or fails and changes nothing. -/
def Atomic (x : Eval ν α) : Prop := ∀ s,
  (∃ a c, x s = .value a { s with scopes := c } ∧ c.depth = s.scopes.depth) ∨ ∃ e, x s = .error e s

theorem Still.atomic {x : Eval ν α} (h : Still x) : Atomic x := by
  intro s
  rcases h s with ⟨a, read⟩ | failed
  · exact .inl ⟨a, s.scopes, read, rfl⟩
  · exact .inr failed

theorem Still.ofExcept (cx : Context ν) (r : Except Cause α) : Still (ofExcept cx r) := by
  intro s
  cases r with
  | ok a => exact .inl ⟨a, rfl⟩
  | error cause => exact .inr ⟨_, rfl⟩

namespace Atomic

variable {x : Eval ν α}

theorem fail (cx : Context ν) (cause : Cause) : Atomic (fail cx cause : Eval ν α) :=
  fun _ => .inr ⟨_, rfl⟩

/-- What follows a computation without a change may be atomic. -/
theorem after {f : α → Eval ν β} (hx : Still x) (hf : ∀ a, Atomic (f a)) : Atomic (x >>= f) := by
  intro s
  rcases hx s with ⟨a, read⟩ | ⟨e, failed⟩
  · rw [Run.bind_of_value read]
    exact hf a s
  · exact .inr ⟨e, Run.bind_of_error failed⟩

theorem map (h : Atomic x) (f : α → β) : Atomic (x >>= fun a => pure (f a)) := by
  intro s
  rcases h s with ⟨a, c, written, depth⟩ | ⟨e, failed⟩
  · exact .inl ⟨f a, c, Run.bind_of_value written, depth⟩
  · exact .inr ⟨e, Run.bind_of_error failed⟩

theorem ne_exhausted (h : Atomic x) (s : State ν) : x s ≠ .exhausted := by
  rcases h s with ⟨a, c, written, -⟩ | ⟨e, failed⟩
  · rw [written]
    nofun
  · rw [failed]
    nofun

theorem level (h : Atomic x) : Run.Within State.Level x := by
  intro s t ended
  rcases h s with ⟨a, c, written, depth⟩ | ⟨e, failed⟩
  · rw [written] at ended
    cases ended
    exact depth
  · rw [failed] at ended
    cases ended
    rfl

end Atomic

variable [DecidableEq ν] (cx : Context ν)

theorem still_readPlace (place : Place ν) : Still (readPlace cx place) := fun s =>
  Still.ofExcept cx (place.read cx.label s.scopes) s

theorem atomic_writePlace (place : Place ν) (v : Value) : Atomic (writePlace cx place v) := by
  intro s
  have depth := place.depth_write cx.label v s.scopes
  unfold writePlace
  dsimp only
  cases outcome : (place.write cx.label v s.scopes).1 with
  | ok w => exact .inl ⟨w, _, rfl, depth⟩
  | error cause =>
      rw [Place.snd_write_of_error outcome]
      exact .inr ⟨_, rfl⟩

theorem atomic_bindName (op : BindOp) (x : ν) (v : Value) : Atomic (bindName cx op x v) := by
  cases op with
  | defvar =>
      have defined : Atomic (define x v) := fun s => .inl ⟨(), _, rfl, s.scopes.depth_define x v⟩
      exact defined.map fun _ => v
  | setq =>
      have assigned : Atomic (assign cx x v) := by
        intro s
        unfold assign
        rw [Chain.assign?_eq]
        cases s.scopes.lookup x with
        | some old => exact .inl ⟨(), _, rfl, s.scopes.depth_replace x v⟩
        | none => exact .inr ⟨_, rfl⟩
      exact assigned.map fun _ => v

/-- All checks of an update come before its write. -/
theorem atomic_update (op : UpdateOp) (place : Place ν) (v : Value) :
    Atomic (update cx op place v) := by
  cases op with
  | setf => exact atomic_writePlace cx place v
  | move direction =>
      refine .after (still_readPlace cx place) fun current => ?_
      refine .after (.ofExcept cx _) fun n => .after (.ofExcept cx _) fun amount => ?_
      cases direction.move? n amount with
      | some moved => exact atomic_writePlace cx place (.int moved)
      | none => exact .fail cx _

/-- Updates the element at the index that a value stands for. -/
def updateAt (op : UpdateOp) (x : ν) (v index : Value) : Eval ν Value :=
  match index.int? with
  | some n => update cx op (.element x n) v
  | none => fail cx (.nonIntegerIndex index.typeName)

theorem atomic_updateAt (op : UpdateOp) (x : ν) (v index : Value) :
    Atomic (updateAt cx op x v index) := by
  unfold updateAt
  split
  · exact atomic_update cx op _ v
  · exact .fail cx _

/-- The right-hand side is evaluated before the index. -/
theorem step_updateElement (rec : Expr ν → Eval ν Value) (budget : Nat) (op : UpdateOp) (x : ν)
    (index value : Expr ν) :
    step cx rec budget (.updateElement op x index value) =
      (rec value >>= fun v => rec index >>= updateAt cx op x v) := by
  simp only [step, Eval.index, bind_assoc]
  congr 1
  funext v
  congr 1
  funext n
  unfold updateAt
  cases n.int? <;> rfl

end Eval

namespace Interpreter

section Atomic

variable {interp after : Interpreter ν} {scope : Nat} {x : Eval ν α}

theorem eq_of_atomic_error (h : Eval.Atomic x) {err : EvalError}
    (failed : interp.run scope x = .error err after) : after = interp := by
  obtain ⟨s, ended, rfl⟩ := run_eq_error.1 failed
  rcases h (interp.load scope) with ⟨a, c, written, -⟩ | ⟨e, unchanged⟩
  · rw [written] at ended
    cases ended
  · rw [unchanged] at ended
    cases ended
    exact interp.save_load scope

theorem converges_atomic (h : Eval.Atomic x) {out : Outcome (Interpreter ν) EvalError α} :
    Outcome.Converges (fun _ => interp.run scope x) out ↔ out = interp.run scope x := by
  constructor
  · rintro ⟨-, -, rfl⟩
    rfl
  · rintro rfl
    exact ⟨mt run_eq_exhausted.1 (h.ne_exhausted _), 0, rfl⟩

end Atomic

variable [DecidableEq ν] {label : ν → String} {interp mid after : Interpreter ν} {scope : Nat}
  {out : Outcome (Interpreter ν) EvalError Value}

/-- Evaluates an expression and goes on with its value. An error of the expression is the end. -/
def Then (label : ν → String) (scope : Nat) (e : Expr ν)
    (next : Value → Interpreter ν → Outcome (Interpreter ν) EvalError Value → Prop)
    (interp : Interpreter ν) (out : Outcome (Interpreter ν) EvalError Value) : Prop :=
  (∃ v mid, Outcome.Converges (interp.eval label · scope e) (.value v mid) ∧ next v mid out) ∨
  ∃ err mid, Outcome.Converges (interp.eval label · scope e) (.error err mid) ∧ out = .error err mid

/-- How a form that assigns a value ends: it evaluates the right-hand side, then the index of the
target if there is one, and then does what is left without an evaluation. -/
def Assigns (label : ν → String) (scope : Nat) (value : Expr ν) :
    Assignment ν → Interpreter ν → Outcome (Interpreter ν) EvalError Value → Prop
  | .bind op x => Then label scope value fun v mid out =>
      out = mid.run scope (Eval.bindName (mid.context label) op x v)
  | .update op (.var x) => Then label scope value fun v mid out =>
      out = mid.run scope (Eval.update (mid.context label) op (.var x) v)
  | .update op (.element x index) => Then label scope value fun v =>
      Then label scope index fun n mid out =>
        out = mid.run scope (Eval.updateAt (mid.context label) op x v n)

/-- What is left by evaluations one after another, up to the first that fails. -/
inductive Leaves (label : ν → String) (scope : Nat) :
    List (Expr ν) → Interpreter ν → Interpreter ν → Prop
  | nil {interp : Interpreter ν} : Leaves label scope [] interp interp
  | value {interp mid after : Interpreter ν} {e : Expr ν} {rest : List (Expr ν)} {v : Value} :
      Outcome.Converges (interp.eval label · scope e) (.value v mid) →
        Leaves label scope rest mid after → Leaves label scope (e :: rest) interp after
  | error {interp after : Interpreter ν} {e : Expr ν} {rest : List (Expr ν)} {err : EvalError} :
      Outcome.Converges (interp.eval label · scope e) (.error err after) →
        Leaves label scope (e :: rest) interp after

/-- An expression ends as its first step does. -/
theorem converges_step {e : Expr ν} :
    Outcome.Converges (interp.eval label · scope e) out ↔
      Outcome.Converges (fun n => interp.run scope
        (Eval.step (interp.context label) (MiniLisp.eval (interp.context label) n) n e)) out := by
  refine converges_run.trans (Iff.trans ?_ converges_run.symm)
  exact exists_congr fun _ => and_congr_left' evaluates_step

/-- What begins with an expression is that expression, and then what is done with its value. -/
theorem converges_then (exists_scope : scope < interp.store.size) {e : Expr ν}
    {f : Nat → Value → Eval ν Value} (hf : ∀ v, Run.Stable (f · v))
    (keeps : ∀ v n, Run.Within State.Level (f n v)) :
    Outcome.Converges (fun n => interp.run scope (MiniLisp.eval (interp.context label) n e >>= f n))
        out ↔
      interp.Then label scope e
        (fun v mid out => Outcome.Converges (fun n => mid.run scope (f n v)) out) out :=
  converges_bind exists_scope (stable_eval _ e) hf (within_level_eval _ · e) keeps

/-- What goes on with a value only matters in an interpreter with the same functions and scopes. -/
theorem then_congr {e : Expr ν}
    {next next' : Value → Interpreter ν → Outcome (Interpreter ν) EvalError Value → Prop}
    (same : ∀ v (mid : Interpreter ν), mid.context label = interp.context label →
      mid.store.size = interp.store.size → (next v mid out ↔ next' v mid out)) :
    interp.Then label scope e next out ↔ interp.Then label scope e next' out := by
  refine or_congr (exists_congr fun v => exists_congr fun mid => and_congr_right fun ended => ?_) Iff.rfl
  obtain ⟨functions, size⟩ := kept_of_converges ended rfl
  refine same v mid ?_ size
  rw [context, context, functions]

theorem converges_then_atomic (exists_scope : scope < interp.store.size) (e : Expr ν)
    {f : Context ν → Value → Eval ν Value} (atomic : ∀ cx v, Eval.Atomic (f cx v)) :
    Outcome.Converges (fun n => interp.run scope
        (MiniLisp.eval (interp.context label) n e >>= f (interp.context label))) out ↔
      interp.Then label scope e
        (fun v mid out => out = mid.run scope (f (mid.context label) v)) out := by
  rw [converges_then exists_scope (fun v => .const (f _ v)) fun v _ => (atomic _ v).level]
  refine then_congr fun v mid context _ => ?_
  rw [context]
  exact converges_atomic (atomic _ v)

/-- A form that assigns a value evaluates its parts in order, and nothing else. -/
theorem converges_assignment (exists_scope : scope < interp.store.size) (value : Expr ν)
    (form : Assignment ν) :
    Outcome.Converges (interp.eval label · scope (form.expr value)) out ↔
      Assigns label scope value form interp out := by
  rw [converges_step]
  match form with
  | .bind op x => exact converges_then_atomic exists_scope value (Eval.atomic_bindName · op x ·)
  | .update op (.var x) =>
      exact converges_then_atomic exists_scope value (Eval.atomic_update · op (.var x) ·)
  | .update op (.element x index) =>
      simp only [Assignment.expr, Target.update, Eval.step_updateElement]
      have atomic := fun cx v n => Eval.atomic_updateAt cx op x v n
      rw [converges_then exists_scope
        (fun v => (stable_eval _ index).bind fun n => .const (Eval.updateAt _ op x v n))
        fun v n => .bind (fun h h' => h'.trans h) (within_level_eval _ n index)
          fun n => (atomic _ v n).level]
      -- The index is evaluated in the interpreter that the right-hand side leaves.
      refine then_congr fun v mid context size => ?_
      rw [← context]
      exact converges_then_atomic (size ▸ exists_scope) index (atomic · v ·)

theorem leaves_of_then {e : Expr ν} {rest : List (Expr ν)} {err : EvalError}
    {next : Value → Interpreter ν → Outcome (Interpreter ν) EvalError Value → Prop}
    (h : interp.Then label scope e next (.error err after))
    (left : ∀ v mid, next v mid (.error err after) → Leaves label scope rest mid after) :
    Leaves label scope (e :: rest) interp after := by
  rcases h with ⟨v, mid, first, rest⟩ | ⟨err', mid, failed, same⟩
  · exact .value first (left v mid rest)
  · cases same
    exact .error failed

theorem leaves_nil_of_atomic {x : Eval ν Value} (h : Eval.Atomic x) {err : EvalError}
    (failed : .error err after = interp.run scope x) : Leaves label scope [] interp after := by
  rw [eq_of_atomic_error h failed.symm]
  exact .nil

/-- A form that fails leaves what the evaluations of its parts left, and writes nothing. -/
theorem Assigns.leaves {value : Expr ν} {form : Assignment ν} {err : EvalError}
    (h : Assigns label scope value form interp (.error err after)) :
    Leaves label scope (form.parts value) interp after := by
  match form with
  | .bind op x =>
      rw [Assigns] at h
      exact leaves_of_then h fun v mid => leaves_nil_of_atomic (Eval.atomic_bindName _ op x v)
  | .update op (.var x) =>
      rw [Assigns] at h
      exact leaves_of_then h fun v mid => leaves_nil_of_atomic (Eval.atomic_update _ op (.var x) v)
  | .update op (.element x index) =>
      rw [Assigns] at h
      exact leaves_of_then h fun v mid rest => leaves_of_then rest fun n last =>
        leaves_nil_of_atomic (Eval.atomic_updateAt _ op x v n)

end Interpreter

end MiniLisp
