import MiniLisp.Proofs.Fuel
import MiniLisp.Proofs.Safety
import MiniLisp.Proofs.Simulation

/-!
Assignments and updates. Updating a variable assigns it where it is bound, and declares it where it is
not. So an assignment that does not fail does what the update of the same name does. Main statement:
replacing all assignments of a program by updates changes nothing unless a name is assigned that is not
bound, and programs without assignments never fail for that (`Interpreter.eval_setqAsSetf`).
-/

namespace MiniLisp

variable {ν α β : Type}

mutual

/-- Replaces every assignment by the update of the same name. -/
def Expr.setqAsSetf : Expr ν → Expr ν
  | .literal value => .literal value
  | .var x => .var x
  | .element x index => .element x index.setqAsSetf
  | .unary op operand => .unary op operand.setqAsSetf
  | .binary op left right => .binary op left.setqAsSetf right.setqAsSetf
  | .variadic op operands => .variadic op (Expr.setqAsSetfAll operands)
  | .bind .defvar x value => .bind .defvar x value.setqAsSetf
  | .bind .setq x value => .update .setf x value.setqAsSetf
  | .update op x value => .update op x value.setqAsSetf
  | .updateElement op x index value => .updateElement op x index.setqAsSetf value.setqAsSetf
  | .ifThen cond yes => .ifThen cond.setqAsSetf yes.setqAsSetf
  | .ifElse cond yes no => .ifElse cond.setqAsSetf yes.setqAsSetf no.setqAsSetf
  | .loop body => .loop (Expr.setqAsSetfAll body)
  | .loopFor x first last body =>
      .loopFor x first.setqAsSetf last.setqAsSetf (Expr.setqAsSetfAll body)
  | .dotimes x count body => .dotimes x count.setqAsSetf (Expr.setqAsSetfAll body)
  | .call f args => .call f (Expr.setqAsSetfAll args)
  | .ret value => .ret value.setqAsSetf

def Expr.setqAsSetfAll : List (Expr ν) → List (Expr ν)
  | [] => []
  | e :: rest => e.setqAsSetf :: Expr.setqAsSetfAll rest

end

def FunctionDef.setqAsSetf (fn : FunctionDef ν) : FunctionDef ν :=
  { fn with body := Expr.setqAsSetfAll fn.body }

def FunctionTable.setqAsSetf (functions : FunctionTable ν) : FunctionTable ν :=
  { functions with
    definitions := functions.definitions.map fun d => { d with fn := d.fn.setqAsSetf } }

/-- The interpreter whose functions update where they assigned. -/
def Interpreter.setqAsSetf (interp : Interpreter ν) : Interpreter ν :=
  { interp with functions := interp.functions.setqAsSetf }

/-- No subterm is an assignment. -/
def Expr.SetqFree (e : Expr ν) : Prop := ∀ x value, .bind .setq x value ∉ e.subterms

/-- The error of an assignment to a name that is not bound. -/
def Cause.Unbound : Cause → Prop
  | assignToUndefined _ => True
  | _ => False

namespace Expr

theorem setqAsSetfAll_eq (es : List (Expr ν)) : setqAsSetfAll es = es.map setqAsSetf := by
  induction es with
  | nil => rfl
  | cons e rest ih => rw [setqAsSetfAll, ih, List.map_cons]

theorem parts_of_setqAsSetf (e : Expr ν) : e.setqAsSetf.parts = e.parts.map setqAsSetf := by
  cases e with
  | bind op x value => cases op <;> rfl
  | _ => simp [setqAsSetf, parts, setqAsSetfAll_eq]

/-- No assignment is left over. -/
theorem setqFree_setqAsSetf (e : Expr ν) : e.setqAsSetf.SetqFree := by
  induction e using parts_induction with
  | step e ih =>
      intro x value mem
      rw [mem_subterms, parts_of_setqAsSetf] at mem
      rcases mem with same | ⟨d, mem, inside⟩
      · cases e with
        | bind op y value => cases op <;> cases same
        | _ => cases same
      · obtain ⟨d, part, rfl⟩ := List.mem_map.1 mem
        exact ih d part x value inside

theorem forall₂_setqAsSetfAll (es : List (Expr ν)) :
    List.Forall₂ (fun e d => d = e.setqAsSetf) es (setqAsSetfAll es) := by
  rw [setqAsSetfAll_eq]
  exact List.forall₂_map_right_iff.2 (List.forall₂_same.2 fun _ _ => rfl)

end Expr

/-! ### Computations that end alike -/

/-- The second computation ends as the first one does, unless that one is out of fuel or fails for an
assignment to a name that is not bound. -/
def Eval.Replaces (x y : Eval ν α) : Prop :=
  ∀ s, x s = .exhausted ∨ (∃ e t, x s = .error e t ∧ e.cause.Unbound) ∨ y s = x s

namespace Eval.Replaces

theorem refl (x : Eval ν α) : Replaces x x := fun _ => .inr (.inr rfl)

theorem bind {x y : Eval ν α} {f g : α → Eval ν β} (hx : Replaces x y)
    (hf : ∀ a, Replaces (f a) (g a)) : Replaces (x >>= f) (y >>= g) := by
  intro s
  rcases hx s with lacking | ⟨e, t, failed, unbound⟩ | same
  · exact .inl (Run.bind_of_exhausted lacking)
  · exact .inr (.inl ⟨e, t, Run.bind_of_error failed, unbound⟩)
  · cases result : x s with
    | value a t =>
        rw [Run.bind_of_value result, Run.bind_of_value (same.trans result)]
        exact hf a t
    | error e t =>
        rw [Run.bind_of_error result, Run.bind_of_error (same.trans result)]
        exact .inr (.inr rfl)
    | exhausted => exact .inl (Run.bind_of_exhausted result)

/-- What is done on the way out of a computation does not change the cause of an error. -/
theorem exit {x y : Eval ν α} (h : Replaces x y) (s : State ν) {leave : State ν → State ν}
    {mark : State ν → EvalError → EvalError} (kept : ∀ t e, (mark t e).cause = e.cause) :
    (x s).exit leave mark = .exhausted ∨
      (∃ e t, (x s).exit leave mark = .error e t ∧ e.cause.Unbound) ∨
      (y s).exit leave mark = (x s).exit leave mark := by
  rcases h s with lacking | ⟨e, t, failed, unbound⟩ | same
  · exact .inl (Outcome.exit_eq_exhausted.2 lacking)
  · refine .inr (.inl ⟨mark t e, leave t, by rw [failed]; rfl, ?_⟩)
    rwa [kept]
  · exact .inr (.inr (by rw [same]))

theorem inNewScope {x y : Eval ν α} (h : Replaces x y) :
    Replaces (Eval.inNewScope x) (Eval.inNewScope y) := by
  intro s
  rw [Eval.inNewScope_apply, Eval.inNewScope_apply]
  exact h.exit _ fun _ _ => rfl

variable [DecidableEq ν]

theorem activate (cx : Context ν) (f : ν) (arguments : List (ν × Value)) {x y : Eval ν α}
    (h : Replaces x y) :
    Replaces (Eval.activate cx f arguments x) (Eval.activate cx f arguments y) := by
  intro s
  rcases Eval.activate_cases cx f arguments x s with ⟨limit, hlimit, full, refused⟩ | ⟨room, started⟩
  · exact .inr (.inr (by rw [refused, Eval.activate_of_full cx f arguments y hlimit full]))
  · rw [started, Eval.activate_of_room cx f arguments y room]
    exact h.exit _ fun t e => cx.cause_leave t.stack e

/-- An assignment fails where the update would declare, and does the same elsewhere. -/
theorem setq (cx : Context ν) (x : ν) (v : Value) :
    Replaces (Eval.bindName cx .setq x v) (Eval.update cx .setf (.var x) v) := by
  intro s
  have written : Eval.update cx .setf (.var x) v s =
      .value v { s with
        scopes := if s.scopes.contains x then s.scopes.replace x v else s.scopes.define x v } := by
    show Eval.writePlace cx (.var x) v s = _
    unfold Eval.writePlace
    rw [Place.write_var]
    rfl
  cases known : s.scopes.lookup x with
  | none =>
      have failed : Eval.assign cx x v s =
          .error (cx.raise s.stack (.assignToUndefined (cx.label x))) s := by
        rw [Eval.assign, Chain.assign?_eq, known]
        rfl
      refine .inr (.inl ⟨_, _, Run.bind_of_error failed, ?_⟩)
      rw [cx.cause_raise]
      trivial
  | some old =>
      have assigned : Eval.assign cx x v s = .value () { s with scopes := s.scopes.replace x v } := by
        rw [Eval.assign, Chain.assign?_eq, known]
        rfl
      refine .inr (.inr ?_)
      rw [written, Chain.contains_eq, known]
      exact (Run.bind_of_value (f := fun _ => pure v) assigned).symm

end Eval.Replaces

/-! ### Both programs -/

variable [DecidableEq ν]

theorem FunctionTable.get?_setqAsSetf (functions : FunctionTable ν) (f : ν) :
    functions.setqAsSetf.get? f =
      (functions.get? f).map fun d => { d with fn := d.fn.setqAsSetf } :=
  Dictionary.get?_map _ _ f

/-- Replacing computations is a relation between a context and the one with updates in its
functions. -/
def LogicalRelation.replaces (cx : Context ν) :
    LogicalRelation cx { cx with functions := cx.functions.setqAsSetf } Unit where
  rel _ _ _ := Eval.Replaces
  good _ := True
  inner := id
  callee := id
  closed := .everything
  labels := rfl
  exhausted _ _ _ _ _ := .inl rfl
  pure _ _ _ _ _ := .refl _
  bind _ _ _ _ _ _ _ _ _ hx hf := hx.bind fun a => hf a fun _ _ => trivial
  fail _ _ _ _ cause _ _ := .refl (Eval.fail cx cause)
  inNewScope _ _ _ _ _ h := h.inNewScope
  activate _ _ _ f arguments _ _ _ h := h.activate cx f arguments

theorem Expr.parts_setqAsSetf (cx : Context ν) ⦃i : Unit⦄ ⦃e d : Expr ν⦄ (same : d = e.setqAsSetf) :
    (LogicalRelation.replaces cx).Parts (fun _ e d => d = e.setqAsSetf) i e d := by
  subst same
  cases e with
  | literal value => exact .literal trivial
  | var x => exact .var (.refl _)
  | element x index => exact .element rfl fun n => .refl _
  | unary op operand => exact .unary rfl fun v _ => .refl _
  | binary op left right => exact .binary rfl rfl
  | variadic op operands => exact .variadic (forall₂_setqAsSetfAll operands)
  | bind op x value =>
      cases op with
      | defvar => exact .bind rfl fun v _ => .refl _
      | setq => exact .reassign rfl fun v _ => .setq cx x v
  | update op x value => exact .update rfl fun v _ => .refl _
  | updateElement op x index value => exact .updateElement rfl rfl fun n v _ => .refl _
  | ifThen cond yes => exact .ifThen rfl rfl
  | ifElse cond yes no => exact .ifElse rfl rfl rfl
  | loop stmts => exact .loop (forall₂_setqAsSetfAll stmts)
  | loopFor x first last stmts =>
      exact .loopFor rfl rfl (forall₂_setqAsSetfAll stmts) fun v _ => .refl _
  | dotimes x count stmts =>
      exact .dotimes rfl (forall₂_setqAsSetfAll stmts) fun v _ => .refl _
  | call f args =>
      refine .call (forall₂_setqAsSetfAll args) ?_
      rw [FunctionTable.get?_setqAsSetf]
      cases cx.functions.get? f with
      | none => exact .none
      | some found => exact .some ⟨rfl, rfl, forall₂_setqAsSetfAll found.fn.body⟩
  | ret value => exact .ret rfl

theorem replaces_eval (cx : Context ν) (fuel : Nat) (e : Expr ν) :
    Eval.Replaces (eval cx fuel e)
      (eval { cx with functions := cx.functions.setqAsSetf } fuel e.setqAsSetf) :=
  (LogicalRelation.replaces cx).eval (i := ()) (Expr.parts_setqAsSetf cx) (Nat.le_refl fuel) rfl

/-- All values, and all errors but that of an assignment to a name that is not bound. -/
def Safety.bound : Safety where
  good _ := True
  allowed cause := ¬cause.Unbound
  closed := .everything
  operands {_ cause} _ h unbound := by
    cases cause with
    | assignToUndefined name => exact h
    | _ => exact unbound
  limit _ := id

/-- No function has an assignment in its body. -/
def FunctionTable.SetqFree (functions : FunctionTable ν) : Prop :=
  ∀ f found, functions.get? f = some found →
    ∀ x value, .bind .setq x value ∉ Expr.subtermsAll found.fn.body

theorem FunctionTable.setqFree_setqAsSetf (functions : FunctionTable ν) :
    functions.setqAsSetf.SetqFree := by
  intro f found known x value mem
  rw [get?_setqAsSetf, Option.map_eq_some_iff] at known
  obtain ⟨d, -, rfl⟩ := known
  change _ ∈ Expr.subtermsAll (Expr.setqAsSetfAll d.fn.body) at mem
  rw [Expr.setqAsSetfAll_eq, Expr.mem_subtermsAll] at mem
  obtain ⟨e, stmt, inside⟩ := mem
  obtain ⟨e, -, rfl⟩ := List.mem_map.1 stmt
  exact e.setqFree_setqAsSetf x value inside

omit [DecidableEq ν] in
theorem Safety.admits_bound (label : ν → String) {es : List (Expr ν)}
    (h : ∀ x value, .bind .setq x value ∉ es) : ∀ c ∈ es, Safety.bound.Admits label c := by
  intro c mem
  cases c with
  | literal value => trivial
  | bind op x value =>
      cases op with
      | defvar => trivial
      | setq => exact absurd mem (h x value)
  | _ => trivial

theorem Bindings.only_everything (b : Bindings ν) : b.Only fun _ => True := fun _ _ _ => trivial

namespace Interpreter

omit [DecidableEq ν] in
/-- Where computations end alike, so do their runs. -/
theorem matches_setqAsSetf {interp : Interpreter ν} {scope : Nat} {x y : Eval ν α}
    (done : interp.run scope x ≠ .exhausted) (same : y (interp.load scope) = x (interp.load scope)) :
    Outcome.Matches (fun a b => b = a.setqAsSetf) (interp.run scope x)
      (interp.setqAsSetf.run scope y) := by
  have loaded : y (interp.setqAsSetf.load scope) = x (interp.load scope) := same
  unfold run at done ⊢
  rw [loaded]
  cases result : x (interp.load scope) with
  | value a t => exact .value rfl
  | error e t => exact .error rfl
  | exhausted =>
      rw [result] at done
      exact absurd rfl done

/-- A program in which all assignments are replaced by updates ends as the program does, in the same
state, unless the program assigns a name that is not bound. Without assignments there is no such
failure; in particular, no write to a place fails in this way. -/
theorem eval_setqAsSetf (label : ν → String) (interp : Interpreter ν) (scope : Nat) (e : Expr ν) :
    (∀ out, Outcome.Converges (interp.eval label · scope e) out →
      (∀ err after, out = .error err after → ¬err.cause.Unbound) →
      ∃ out', Outcome.Converges (interp.setqAsSetf.eval label · scope e.setqAsSetf) out' ∧
        Outcome.Matches (fun a b => b = a.setqAsSetf) out out') ∧
    (e.SetqFree → interp.functions.SetqFree →
      ∀ fuel err after, interp.eval label fuel scope e = .error err after → ¬err.cause.Unbound) ∧
    ∀ (place : Place ν) v c cause, (place.write label v c).1 = .error cause → ¬cause.Unbound := by
  refine ⟨?_, ?_, ?_⟩
  · rintro _ ⟨done, fuel, rfl⟩ bound
    rcases replaces_eval (interp.context label) fuel e (interp.load scope) with
      lacking | ⟨err, t, failed, unbound⟩ | same
    · exact absurd (run_eq_exhausted.2 lacking) done
    · exact absurd unbound (bound err _ (run_of_error failed))
    · have matched : Outcome.Matches (fun a b => b = a.setqAsSetf) (interp.eval label fuel scope e)
          (interp.setqAsSetf.eval label fuel scope e.setqAsSetf) := matches_setqAsSetf done same
      exact ⟨_, ⟨matched.ne_exhausted, fuel, rfl⟩, matched⟩
  · intro free functions fuel err after failed
    have safe := safe_eval .bound label fuel interp scope
      (fun t => (interp.store.bindings t).only_everything)
      (fun f found known => Safety.admits_bound label (functions f found known))
      (Safety.admits_bound label free)
    exact safe.ends.2.2 err after failed
  · intro place v c cause failed
    exact Safety.bound.operands (List.forall_mem_nil _) (place.blames_write label v c cause failed)

/-- A root that binds the name 0, and a function 9 that assigns the name 0 to one more. -/
def counter : Interpreter Nat where
  store := Store.new.setBindings 0 ⟨[(0, .int 1)]⟩
  functions := (FunctionTable.new.define ⟨9, [],
    [.bind .setq 0 (.variadic (.arithmetic .add) [.var 0, .literal (.int 1)])]⟩).2
  stack := CallStack.new none
  printer := .silent

/-- The assigned name is bound by the time it is assigned, so the update does the same; and what the
updated program fails for is another cause. -/
theorem eval_setqAsSetf_counter :
    let e := .bind .setq 1 (.variadic (.arithmetic .add)
      [.bind .defvar 1 (.literal (.int 5)), .call 9 []])
    let failing := .bind .setq 1 (.var 2)
    (∃ after, counter.eval toString 9 0 e = .value (.int 7) after ∧
      Outcome.Converges (counter.setqAsSetf.eval toString · 0 e.setqAsSetf)
        (.value (.int 7) after.setqAsSetf)) ∧
    ∃ err after, counter.setqAsSetf.eval toString 9 0 (Expr.setqAsSetf failing) = .error err after ∧
      err.cause = .undefinedVariable "2" ∧ ¬err.cause.Unbound := by
  intro e failing
  constructor
  · have run : (counter.eval toString 9 0 e).value? = some (.int 7) := by decide +kernel
    obtain ⟨after, result⟩ := Outcome.value?_eq_some.1 run
    have converges : Outcome.Converges (counter.eval toString · 0 e) (.value (.int 7) after) :=
      .of_value result
    obtain ⟨out', converges', matched⟩ :=
      (eval_setqAsSetf toString counter 0 e).1 _ converges nofun
    cases matched with
    | value same =>
        subst same
        exact ⟨after, result, converges'⟩
  · have run : (counter.setqAsSetf.eval toString 9 0 (Expr.setqAsSetf failing)).failure?.map
        EvalError.cause = some (.undefinedVariable "2") := by decide +kernel
    obtain ⟨err, failed, cause⟩ := Option.map_eq_some_iff.1 run
    obtain ⟨after, failed⟩ := Outcome.failure?_eq_some.1 failed
    exact ⟨err, after, failed, cause, (eval_setqAsSetf toString counter.setqAsSetf 0 _).2.1
      (Expr.setqFree_setqAsSetf failing) (FunctionTable.setqFree_setqAsSetf _) 9 err after failed⟩

end Interpreter

end MiniLisp
