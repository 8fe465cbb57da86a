import MiniLisp.Proofs.Fuel
import MiniLisp.Proofs.Store

/-!
What an evaluation may write. Bindings are never removed. A new name appears only in the scope of the
evaluation and only by a declaration or update in its own text; known names change only along the path
of that scope, by the text itself or, in the root, by the bodies of functions
(`Interpreter.eval_footprint`).
-/

namespace MiniLisp

variable {ν : Type} [DecidableEq ν]

/-- Every name keeps its binding, or is one that may be written and is bound afterwards; a name that
was not bound before is fresh. -/
def Bindings.Moves (writes fresh : ν → Prop) (b b' : Bindings ν) : Prop :=
  ∀ x, b'.get? x = b.get? x ∨ (b'.get? x).isSome ∧ writes x ∧ (b.get? x = none → fresh x)

namespace Bindings.Moves

variable {writes writes' fresh fresh' : ν → Prop} {b b' b'' : Bindings ν}

theorem refl : Moves writes fresh b b := fun _ => .inl rfl

theorem trans (h : Moves writes fresh b b') (h' : Moves writes fresh b' b'') :
    Moves writes fresh b b'' := by
  intro x
  rcases h x with same | ⟨bound, written, new⟩
  · rw [← same]
    exact h' x
  · rcases h' x with same' | ⟨bound', written', -⟩
    · exact .inr ⟨by rwa [same'], written, new⟩
    · exact .inr ⟨bound', written', new⟩

theorem mono (hwrites : ∀ x, writes x → writes' x) (hfresh : ∀ x, fresh x → fresh' x)
    (h : Moves writes fresh b b') : Moves writes' fresh' b b' := fun x =>
  (h x).imp id fun ⟨bound, written, new⟩ => ⟨bound, hwrites x written, fun free => hfresh x (new free)⟩

theorem set {x : ν} (v : Value) (hwrites : writes x) (hfresh : b.get? x = none → fresh x) :
    Moves writes fresh b (b.set x v) := by
  intro y
  by_cases same : x = y
  · subst same
    exact .inr ⟨by simp, hwrites, hfresh⟩
  · exact .inl (b.get?_set_of_ne same v)

end Bindings.Moves

/-- A chain changes scope by scope. The current scope alone may get fresh names, and the root may
also change in the names that functions share. -/
inductive Chain.Moves (shared own : ν → Prop) : (ν → Prop) → Chain ν → Chain ν → Prop
  | root {fresh : ν → Prop} {b b' : Bindings ν} :
      Bindings.Moves (fun x => own x ∨ fresh x ∨ shared x) fresh b b' →
        Moves shared own fresh (.root b) (.root b')
  | child {fresh : ν → Prop} {b b' : Bindings ν} {c c' : Chain ν} :
      Bindings.Moves (fun x => own x ∨ fresh x) fresh b b' →
        Moves shared own (fun _ => False) c c' →
          Moves shared own fresh (.child b c) (.child b' c')

namespace Chain.Moves

variable {shared own own' fresh fresh' : ν → Prop} {c c' c'' : Chain ν}

theorem refl (c : Chain ν) : Moves shared own fresh c c := by
  induction c generalizing fresh with
  | root b => exact .root .refl
  | child b parent ih => exact .child .refl ih

theorem trans (h : Moves shared own fresh c c') (h' : Moves shared own fresh c' c'') :
    Moves shared own fresh c c'' := by
  induction h generalizing c'' with
  | root hb =>
      cases h' with
      | root hb' => exact .root (hb.trans hb')
  | child hb _ ih =>
      cases h' with
      | child hb' hparent' => exact .child (hb.trans hb') (ih hparent')

theorem mono (hfresh : ∀ x, fresh x → fresh' x) (h : Moves shared own fresh c c') :
    Moves shared own fresh' c c' := by
  cases h with
  | root hb => exact .root (hb.mono (fun x => Or.imp id (Or.imp (hfresh x) id)) hfresh)
  | child hb hparent => exact .child (hb.mono (fun x => Or.imp id (hfresh x)) hfresh) hparent

theorem depth_eq (h : Moves shared own fresh c c') : c'.depth = c.depth := by
  induction h with
  | root _ => rfl
  | child _ _ ih => exact congrArg (· + 1) ih

theorem define {x : ν} (v : Value) (hx : fresh x) (c : Chain ν) :
    Moves shared own fresh c (c.define x v) := by
  cases c with
  | root b => exact .root (.set v (.inr (.inl hx)) fun _ => hx)
  | child b parent => exact .child (.set v (.inr hx) fun _ => hx) (refl parent)

theorem replace {x : ν} (v : Value) (hx : own x) (c : Chain ν) :
    Moves shared own fresh c (c.replace x v) := by
  induction c generalizing fresh with
  | root b =>
      unfold Chain.replace
      split
      · next bound =>
          refine .root (.set v (.inl hx) fun free => ?_)
          simp [Dictionary.contains, free] at bound
      · exact refl _
  | child b parent ih =>
      unfold Chain.replace
      split
      · next bound =>
          refine .child (.set v (.inl hx) fun free => ?_) (refl parent)
          simp [Dictionary.contains, free] at bound
      · exact .child .refl ih

theorem write_var (label : ν → String) {x : ν} (v : Value) (hown : own x) (hfresh : fresh x)
    (c : Chain ν) : Moves shared own fresh c ((Place.var x).write label v c).2 := by
  rw [Place.write_var]
  split
  · exact replace v hown c
  · exact define v hfresh c

theorem write_element (label : ν → String) {x : ν} (index : Int64) (v : Value) (hown : own x)
    (c : Chain ν) : Moves shared own fresh c ((Place.element x index).write label v c).2 := by
  rw [Place.write_element]
  split
  · exact replace _ hown c
  · exact refl c

/-- Whatever happened in a new scope is gone with it. -/
theorem leave {everything : ν → Prop} (h : Moves shared own everything c.enter c') :
    Moves shared own fresh c c'.leave := by
  cases h with
  | child _ hparent => exact hparent.mono fun _ => False.elim

/-- A call only changes the root, and there it adds nothing. -/
theorem withRoot {rb rb' : Bindings ν}
    (h : Bindings.Moves (fun x => own x ∨ shared x) (fun _ => False) rb rb') (hc : c.rootBindings = rb) :
    Moves shared own fresh c (c.withRoot rb') := by
  induction c generalizing fresh with
  | root b =>
      subst hc
      exact .root (h.mono (fun x => Or.imp id .inr) fun _ => False.elim)
  | child b parent ih => exact .child .refl (ih hc)

/-- The body of a call only reaches the root of the caller. -/
theorem leaveCall {everything : ν → Prop} {s after : State ν} {stack : CallStack ν}
    {arguments : List (ν × Value)}
    (h : Moves shared shared everything (s.enterCall stack arguments).scopes after.scopes) :
    Moves shared own fresh s.scopes (s.leaveCall after).scopes := by
  obtain ⟨b, hb⟩ := Chain.foldl_define_child arguments ∅ (.root s.scopes.rootBindings)
  obtain ⟨scopes, stack', printer⟩ := after
  unfold State.enterCall at h
  rw [hb] at h
  cases h with
  | child _ hroot =>
      cases hroot with
      | root hroot =>
          refine withRoot (hroot.mono (fun x hx => ?_) fun _ => id) rfl
          rcases hx with hx | hx | hx
          · exact .inr hx
          · exact hx.elim
          · exact .inr hx

end Chain.Moves

/-- The body of some function writes to the name. -/
def FunctionTable.Targets (functions : FunctionTable ν) (x : ν) : Prop :=
  ∃ f found, functions.get? f = some found ∧ x ∈ Expr.targetsAll found.fn.body

/-- The names that a text may write anywhere, and those that it may add to the current scope. -/
structure Reach (ν : Type) where
  own : ν → Prop
  fresh : ν → Prop

def Scoping.reach (functions : FunctionTable ν) : Scoping functions (Reach ν) where
  assigns r := r.own
  declares r := r.fresh
  inner r := ⟨r.own, fun _ => True⟩
  callee _ := ⟨functions.Targets, fun _ => True⟩
  assigns_inner _ _ h := h
  declares_inner _ _ := trivial
  assigns_callee _ f found h _ mem := ⟨f, found, h, mem⟩
  declares_callee _ _ := trivial

/-- The scopes move within what a text may reach. -/
def State.Moves (functions : FunctionTable ν) (r : Reach ν) (s t : State ν) : Prop :=
  Chain.Moves functions.Targets r.own r.fresh s.scopes t.scopes

namespace Eval

variable {functions : FunctionTable ν} {r : Reach ν} {α : Type}

omit [DecidableEq ν] in
theorem after?_ofExcept (cx : Context ν) (x : Except Cause α) (s : State ν) :
    (ofExcept cx x s).after? = some s := by cases x <;> rfl

omit [DecidableEq ν] in
theorem within_ofExcept {R : State ν → State ν → Prop} (cx : Context ν)
    (x : State ν → Except Cause α) {next : State ν → State ν} (h : ∀ s, R s (next s)) :
    Run.Within R fun s => ofExcept cx (x s) (next s) := by
  intro s t ended
  rw [after?_ofExcept] at ended
  cases ended
  exact h s

theorem within_writePlace (cx : Context ν) {place : Place ν} {v : Value}
    (h : ∀ c, Chain.Moves functions.Targets r.own r.fresh c (place.write cx.label v c).2) :
    Run.Within (State.Moves functions r) (writePlace cx place v) :=
  within_ofExcept cx _ fun s => h s.scopes

end Eval

/-- Every part of an evaluation moves the scopes within what its text may reach. -/
theorem Congruence.footprint (cx : Context ν) :
    Congruence cx cx (Scoping.reach cx.functions)
      fun r {_} x _ => Run.Within (State.Moves cx.functions r) x where
  functions_eq := rfl
  label_eq := rfl
  exhausted _ _ _ := .exhausted
  pure _ _ a := .pure (fun _ => .refl _) a
  bind _ _ _ _ _ _ _ hx hf := .bind .trans hx hf
  fail _ _ cause _ := by
    intro s t ended
    cases ended
    exact .refl _
  unary _ _ _ := Eval.within_ofExcept cx _ fun _ => .refl _
  readPlace _ _ := Eval.within_ofExcept cx _ fun _ => .refl _
  writeVar _ _ v hassign hdeclare :=
    Eval.within_writePlace cx (.write_var cx.label v hassign hdeclare)
  writeElement _ _ n v hassign := Eval.within_writePlace cx (.write_element cx.label n v hassign)
  define _ x v hdeclare := by
    intro s t ended
    cases ended
    exact .define v hdeclare _
  assign _ x v hassign := by
    intro s t ended
    unfold Eval.assign at ended
    rw [Chain.assign?_eq] at ended
    cases h : s.scopes.lookup x with
    | none =>
        rw [h] at ended
        cases ended
        exact .refl _
    | some old =>
        rw [h] at ended
        cases ended
        exact .replace v hassign _
  inNewScope _ _ _ _ h := .inNewScope h fun _ _ => Chain.Moves.leave
  activate _ _ f arguments _ _ h :=
    .activate cx f arguments h (fun _ => .refl _) fun _ _ _ => Chain.Moves.leaveCall

/-- An evaluation moves the scopes within what its expression may reach. -/
theorem within_eval (cx : Context ν) (fuel : Nat) (e : Expr ν) :
    Run.Within (State.Moves cx.functions ⟨(· ∈ e.targets), (· ∈ e.declared)⟩) (eval cx fuel e) :=
  (Congruence.footprint cx).eval (Nat.le_refl fuel) e (i := ⟨(· ∈ e.targets), (· ∈ e.declared)⟩)
    ⟨fun _ => id, fun _ => id⟩

/-- What a chain shows of a change, scope by scope along the path. -/
theorem Store.moves_of_view {shared own fresh : ν → Prop} {store after : Store ν}
    (parents : ∀ j, after.parent? j = store.parent? j) {i t : Nat} (mem : t ∈ store.path i)
    (h : Chain.Moves shared own fresh (store.view i) (after.view i)) :
    Bindings.Moves (fun x => own x ∨ t = i ∧ fresh x ∨ t = store.rootOf i ∧ shared x)
      (fun x => t = i ∧ fresh x) (store.bindings t) (after.bindings t) := by
  induction i using store.parent_induction generalizing fresh with
  | root i hroot =>
      rw [store.path_of_root hroot, List.mem_singleton] at mem
      subst mem
      rw [store.view_of_root hroot, after.view_of_root ((parents t).trans hroot)] at h
      rw [store.rootOf_of_root hroot]
      cases h with
      | root hb =>
          exact hb.mono (fun x => Or.imp id (Or.imp (And.intro rfl) (And.intro rfl)))
            fun x => And.intro rfl
  | child i p hparent ih =>
      rw [store.view_of_parent hparent, after.view_of_parent ((parents i).trans hparent)] at h
      rw [store.path_of_parent hparent, List.mem_cons] at mem
      cases h with
      | child hb houter =>
          rcases mem with rfl | mem
          · exact hb.mono (fun x => Or.imp id fun new => .inl ⟨rfl, new⟩) fun x => And.intro rfl
          · rw [store.rootOf_of_parent hparent]
            refine (ih mem houter).mono (fun x => Or.imp id fun hx => ?_) fun x hx => hx.2.elim
            rcases hx with hx | hx
            · exact hx.2.elim
            · exact .inr hx

namespace Interpreter

/-- The binding of a name in a scope is not what it was. -/
def Differs (before after : Interpreter ν) (t : Nat) (x : ν) : Prop :=
  (after.store.bindings t).get? x ≠ (before.store.bindings t).get? x

/-- The traces that an evaluation of an expression under a scope may leave in an interpreter. -/
structure Footprint (before after : Interpreter ν) (scope : Nat) (e : Expr ν) : Prop where
  functions : after.functions = before.functions
  size : after.store.size = before.store.size
  parents : ∀ t, after.store.parent? t = before.store.parent? t
  /-- No binding is removed. -/
  kept : ∀ t x, (before.store.bindings t).contains x → (after.store.bindings t).contains x
  /-- Only the scope and its ancestors change. -/
  on_path : ∀ t x, Differs before after t x → t ∈ before.store.path scope
  /-- A new name is declared by the text, and bound in the scope itself. -/
  fresh : ∀ t x, Differs before after t x → (before.store.bindings t).get? x = none →
    t = scope ∧ x ∈ e.declared ∧ (after.store.bindings t).contains x
  /-- Outside of the root, only the text writes. -/
  targets : ∀ t x, Differs before after t x → t ≠ before.store.rootOf scope → x ∈ e.targets
  /-- In the root, the text and the bodies of functions write. -/
  shared : ∀ t x, Differs before after t x → t = before.store.rootOf scope →
    x ∈ e.targets ∨ before.functions.Targets x

/-- A state that an evaluation reaches is put back with the footprint of its expression. -/
theorem footprint_save (interp : Interpreter ν) {scope : Nat} (exists_scope : scope < interp.store.size)
    {e : Expr ν} {s : State ν}
    (h : State.Moves interp.functions ⟨(· ∈ e.targets), (· ∈ e.declared)⟩ (interp.load scope) s) :
    Footprint interp (interp.save scope s) scope e := by
  have parents : ∀ j, (interp.store.commit scope s.scopes).parent? j = interp.store.parent? j :=
    fun j => interp.store.parent?_commit scope j s.scopes
  have view := interp.store.view_commit exists_scope (Chain.Moves.depth_eq h)
  have off_path : ∀ t x, Differs interp (interp.save scope s) t x → t ∈ interp.store.path scope := by
    intro t x differs
    refine Decidable.byContradiction fun off => differs ?_
    rw [save, interp.store.bindings_commit_of_not_mem off]
  have moves := fun t (mem : t ∈ interp.store.path scope) =>
    Store.moves_of_view parents mem (by rw [view]; exact h)
  have change : ∀ t x, Differs interp (interp.save scope s) t x →
      ((interp.save scope s).store.bindings t).contains x ∧
      (x ∈ e.targets ∨ t = interp.store.rootOf scope ∧ interp.functions.Targets x) ∧
      ((interp.store.bindings t).get? x = none → t = scope ∧ x ∈ e.declared) := by
    intro t x differs
    obtain ⟨bound, written, new⟩ := (moves t (off_path t x differs) x).resolve_left differs
    refine ⟨bound, ?_, new⟩
    rcases written with own | ⟨-, declared⟩ | hroot
    · exact .inl own
    · exact .inl (e.mem_targets_of_mem_declared declared)
    · exact .inr hroot
  refine ⟨rfl, interp.store.size_commit scope s.scopes, parents, fun t x bound => ?_, off_path,
    fun t x differs free => ?_, fun t x differs inside => ?_, fun t x differs _ => ?_⟩
  · by_cases differs : Differs interp (interp.save scope s) t x
    · exact (change t x differs).1
    · rw [Dictionary.contains, Classical.not_not.1 differs]
      exact bound
  · obtain ⟨bound, -, new⟩ := change t x differs
    exact ⟨(new free).1, (new free).2, bound⟩
  · exact (change t x differs).2.1.resolve_right fun hroot => inside hroot.1
  · exact (change t x differs).2.1.imp id And.right

/-- Whether it ends with a value or an error, an evaluation leaves no more than the footprint of its
expression. -/
theorem eval_footprint (label : ν → String) (interp : Interpreter ν) (scope : Nat)
    (exists_scope : scope < interp.store.size) (e : Expr ν)
    {out : Outcome (Interpreter ν) EvalError Value} {after : Interpreter ν}
    (converges : Outcome.Converges (interp.eval label · scope e) out)
    (ended : out.after? = some after) : Footprint interp after scope e := by
  obtain ⟨-, fuel, rfl⟩ := converges
  change (interp.run scope (MiniLisp.eval (interp.context label) fuel e)).after? = some after at ended
  rw [after?_run, Option.map_eq_some_iff] at ended
  obtain ⟨s, reached, rfl⟩ := ended
  exact interp.footprint_save exists_scope (within_eval (interp.context label) fuel e _ s reached)

/-- A root that binds the name 0, a scope below it, and a function 9 that assigns the name 0. -/
def nested : Interpreter Nat where
  store := (Store.new.setBindings 0 ⟨[(0, .int 1)]⟩).push ⟨∅, some 0⟩ (by
    intro p e
    cases e
    simp [Store.size, Store.setBindings, Store.new])
  functions := (FunctionTable.new.define ⟨9, [], [.bind .setq 0 (.literal (.int 7))]⟩).2
  stack := CallStack.new none
  printer := .silent

/-- Under the lower scope, a declaration is added to the lower scope and a call writes the root. -/
theorem eval_footprint_nested :
    let e := .variadic (.arithmetic .add) [.bind .defvar 1 (.literal (.int 2)), .call 9 []]
    ∃ after, (nested.eval (fun _ => "") 5 1 e).after? = some after ∧
      (after.store.bindings 0).get? 0 = some (.int 7) ∧
      (after.store.bindings 1).get? 1 = some (.int 2) ∧ nested.Footprint after 1 e := by
  intro e
  have run : (nested.eval (fun _ => "") 5 1 e).after?.map
      (fun after => ((after.store.bindings 0).get? 0, (after.store.bindings 1).get? 1)) =
        some (some (.int 7), some (.int 2)) := by decide +kernel
  obtain ⟨after, ended, shown⟩ := Option.map_eq_some_iff.1 run
  obtain ⟨hroot, hlower⟩ := Prod.mk.inj shown
  exact ⟨after, ended, hroot, hlower,
    eval_footprint _ nested 1 (by decide) e (.of_after? ended) ended⟩

end Interpreter

end MiniLisp
