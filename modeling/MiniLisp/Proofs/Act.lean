import MiniLisp.Proofs.Congruence

/-!
Computations that only touch the scopes and the printer. All primitive operations of an evaluation
are of this kind, so a relation that holds of every act, and is kept by sequence, new scopes and
calls, holds of every evaluation (`Congruence.ofActs`).
-/

namespace MiniLisp

variable {ν α : Type}

/-- Computes on the scopes and the printer; an error is raised under the current calls. -/
def Eval.act (cx : Context ν) (f : Chain ν → Printer → Except Cause α × Chain ν × Printer) :
    Eval ν α := fun s =>
  let (r, scopes, printer) := f s.scopes s.printer
  ofExcept cx r { s with scopes, printer }

/-- An act ends with a value, or raises an error, in a state with the same stack. -/
theorem Eval.act_apply (cx : Context ν)
    (f : Chain ν → Printer → Except Cause α × Chain ν × Printer) (s : State ν) :
    act cx f s =
      match (f s.scopes s.printer).1 with
      | .ok a => .value a ⟨(f s.scopes s.printer).2.1, s.stack, (f s.scopes s.printer).2.2⟩
      | .error cause => .error (cx.raise s.stack cause)
          ⟨(f s.scopes s.printer).2.1, s.stack, (f s.scopes s.printer).2.2⟩ := rfl

theorem Eval.act_of_ok (cx : Context ν)
    {f : Chain ν → Printer → Except Cause α × Chain ν × Printer} {s : State ν} {a : α}
    (h : (f s.scopes s.printer).1 = .ok a) :
    act cx f s = .value a ⟨(f s.scopes s.printer).2.1, s.stack, (f s.scopes s.printer).2.2⟩ := by
  rw [act_apply, h]

theorem Eval.act_of_error (cx : Context ν)
    {f : Chain ν → Printer → Except Cause α × Chain ν × Printer} {s : State ν} {cause : Cause}
    (h : (f s.scopes s.printer).1 = .error cause) :
    act cx f s = .error (cx.raise s.stack cause)
      ⟨(f s.scopes s.printer).2.1, s.stack, (f s.scopes s.printer).2.2⟩ := by
  rw [act_apply, h]

/-- Every end of an act has the stack of its start. -/
theorem Run.Within.act {R : State ν → State ν → Prop} (cx : Context ν)
    {f : Chain ν → Printer → Except Cause α × Chain ν × Printer}
    (h : ∀ s : State ν, R s ⟨(f s.scopes s.printer).2.1, s.stack, (f s.scopes s.printer).2.2⟩) :
    Within R (Eval.act cx f) := by
  intro s t ended
  rw [Eval.act_apply] at ended
  split at ended <;> cases ended <;> exact h s

variable [DecidableEq ν]

theorem Eval.assign_eq_act (cx : Context ν) (x : ν) (v : Value) :
    assign cx x v = act cx fun c p =>
      match c.assign? x v with
      | some c' => (.ok (), c', p)
      | none => (.error (.assignToUndefined (cx.label x)), c, p) := by
  funext s
  unfold assign act
  dsimp only
  cases s.scopes.assign? x v <;> rfl

namespace Congruence

variable {cx cx' : Context ν}

/-- A congruence that treats all names alike, from what it says of acts. -/
theorem ofActs {rel : {α : Type} → Eval ν α → Eval ν α → Prop}
    (functions_eq : cx'.functions = cx.functions) (label_eq : cx'.label = cx.label)
    (exhausted : ∀ {α} (y : Eval ν α), rel Run.exhausted y)
    (act : ∀ {α} (f : Chain ν → Printer → Except Cause α × Chain ν × Printer),
      (∀ c p, LimitFree (f c p).1) → rel (Eval.act cx f) (Eval.act cx' f))
    (bind : ∀ {α β} {x y : Eval ν α} {f g : α → Eval ν β},
      rel x y → (∀ a, rel (f a) (g a)) → rel (x >>= f) (y >>= g))
    (inNewScope : ∀ {α} {x y : Eval ν α},
      rel x y → rel (Eval.inNewScope x) (Eval.inNewScope y))
    (activate : ∀ {α} (f : ν) (arguments : List (ν × Value)) {x y : Eval ν α},
      rel x y → rel (Eval.activate cx f arguments x) (Eval.activate cx' f arguments y)) :
    Congruence cx cx' Scoping.free fun _ {_} => rel where
  functions_eq := functions_eq
  label_eq := label_eq
  exhausted _ := exhausted
  pure _ {_} a := act (fun c p => (.ok a, c, p)) fun _ _ => .ok a
  bind _ := bind
  fail _ {_} cause h := act (fun c p => (.error cause, c, p)) fun _ _ => .error h
  unary _ op v := act (fun c p => ((op.apply v p).1, c, (op.apply v p).2)) fun _ p =>
    (op.blames_apply v p).limitFree
  readPlace _ place := by
    have h := act (fun c p => (place.read cx.label c, c, p)) fun c _ =>
      (place.blames_read cx.label c).limitFree
    unfold Eval.readPlace
    rw [label_eq]
    exact h
  writeVar _ x v _ _ := by
    have h := act (fun c p => (((Place.var x).write cx.label v c).1,
      ((Place.var x).write cx.label v c).2, p)) fun c _ =>
        (Place.blames_write cx.label _ v c).limitFree
    unfold Eval.writePlace
    rw [label_eq]
    exact h
  writeElement _ x n v _ := by
    have h := act (fun c p => (((Place.element x n).write cx.label v c).1,
      ((Place.element x n).write cx.label v c).2, p)) fun c _ =>
        (Place.blames_write cx.label _ v c).limitFree
    unfold Eval.writePlace
    rw [label_eq]
    exact h
  define _ x v _ := act (fun c p => (.ok (), c.define x v, p)) fun _ _ => .ok ()
  assign _ x v _ := by
    rw [Eval.assign_eq_act, Eval.assign_eq_act, label_eq]
    refine act _ fun c p => ?_
    split
    · exact .ok ()
    · exact .error id
  inNewScope _ := inNewScope
  activate _ := activate

end Congruence

end MiniLisp
