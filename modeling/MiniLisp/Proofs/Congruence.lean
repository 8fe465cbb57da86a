import MiniLisp.Eval.Basic
import MiniLisp.Proofs.Chain
import MiniLisp.Proofs.LogicalRelation
import MiniLisp.Proofs.Outcome
import MiniLisp.Proofs.Targets

/-!
Comparing evaluations of one expression. A congruence relates computations of two contexts and is kept
by every operation that an evaluation is made of. Such a relation need not treat all names alike: a
scoping says which names may be assigned and declared where. It is a logical relation for which all
values are good (`Congruence.logical`). Main statement: an evaluation is related to the evaluation of
the same expression in the other context with as much fuel or more (`Congruence.eval`).
-/

namespace MiniLisp

variable {ν ι α β : Type}

/-- Which names may be assigned and declared, and how that changes on the way into a loop or a call.
The scope of a counted loop and the scope of a call are new, so all names may be declared in them. -/
structure Scoping (functions : FunctionTable ν) [DecidableEq ν] (ι : Type) where
  assigns : ι → ν → Prop
  declares : ι → ν → Prop
  inner : ι → ι
  callee : ι → ι
  assigns_inner : ∀ i x, assigns i x → assigns (inner i) x
  declares_inner : ∀ i x, declares (inner i) x
  assigns_callee : ∀ i f found, functions.get? f = some found →
    ∀ x ∈ Expr.targetsAll found.fn.body, assigns (callee i) x
  declares_callee : ∀ i x, declares (callee i) x

variable [DecidableEq ν]

namespace Scoping

variable {functions : FunctionTable ν}

/-- The scoping that allows everything. -/
def free : Scoping functions Unit where
  assigns _ _ := True
  declares _ _ := True
  inner := id
  callee := id
  assigns_inner _ _ _ := trivial
  declares_inner _ _ := trivial
  assigns_callee _ _ _ _ _ _ := trivial
  declares_callee _ _ := trivial

variable (scoping : Scoping functions ι)

/-- A text with these targets and declarations is allowed. -/
def Admits (i : ι) (targets declared : List ν) : Prop :=
  (∀ x ∈ targets, scoping.assigns i x) ∧ ∀ x ∈ declared, scoping.declares i x

theorem free_admits (targets declared : List ν) :
    (free : Scoping functions Unit).Admits () targets declared :=
  ⟨fun _ _ => trivial, fun _ _ => trivial⟩

variable {scoping} {i : ι}

theorem admits_append {ts us ds es : List ν} :
    scoping.Admits i (ts ++ us) (ds ++ es) ↔ scoping.Admits i ts ds ∧ scoping.Admits i us es := by
  simp only [Admits, List.forall_mem_append]
  exact and_and_and_comm

theorem admits_inner {ts : List ν} (h : ∀ x ∈ ts, scoping.assigns i x) (ds : List ν) :
    scoping.Admits (scoping.inner i) ts ds :=
  ⟨fun x mem => scoping.assigns_inner i x (h x mem), fun x _ => scoping.declares_inner i x⟩

theorem admits_callee {f : ν} {found : Definition ν} (h : functions.get? f = some found)
    (ds : List ν) :
    scoping.Admits (scoping.callee i) (Expr.targetsAll found.fn.body) ds :=
  ⟨scoping.assigns_callee i f found h, fun x _ => scoping.declares_callee i x⟩

variable (scoping) in
/-- An expression that is allowed, beside itself. -/
def Same (i : ι) (e d : Expr ν) : Prop := d = e ∧ scoping.Admits i e.targets e.declared

theorem forall₂_same : ∀ {es : List (Expr ν)},
    scoping.Admits i (Expr.targetsAll es) (Expr.declaredAll es) →
      List.Forall₂ (scoping.Same i) es es
  | [], _ => .nil
  | _ :: _, h => by
      obtain ⟨head, tail⟩ := admits_append.1 h
      exact .cons ⟨rfl, head⟩ (forall₂_same tail)

end Scoping

/-- A relation between the computations of two contexts that evaluation cannot break. A computation
that is out of fuel is related to every computation. -/
structure Congruence (cx cx' : Context ν) (scoping : Scoping cx.functions ι)
    (rel : ι → {α : Type} → Eval ν α → Eval ν α → Prop) : Prop where
  functions_eq : cx'.functions = cx.functions
  label_eq : cx'.label = cx.label
  exhausted : ∀ i {α} (y : Eval ν α), rel i Run.exhausted y
  pure : ∀ i {α} (a : α), rel i (pure a) (pure a)
  bind : ∀ i {α β} {x y : Eval ν α} {f g : α → Eval ν β},
    rel i x y → (∀ a, rel i (f a) (g a)) → rel i (x >>= f) (y >>= g)
  fail : ∀ i {α} (cause : Cause), ¬cause.IsLimit →
    rel i (Eval.fail cx cause : Eval ν α) (Eval.fail cx' cause)
  unary : ∀ i op v, rel i (Eval.unary cx op v) (Eval.unary cx' op v)
  readPlace : ∀ i place, rel i (Eval.readPlace cx place) (Eval.readPlace cx' place)
  writeVar : ∀ i x v, scoping.assigns i x → scoping.declares i x →
    rel i (Eval.writePlace cx (.var x) v) (Eval.writePlace cx' (.var x) v)
  writeElement : ∀ i x n v, scoping.assigns i x →
    rel i (Eval.writePlace cx (.element x n) v) (Eval.writePlace cx' (.element x n) v)
  define : ∀ i x v, scoping.declares i x → rel i (Eval.define x v) (Eval.define x v)
  assign : ∀ i x v, scoping.assigns i x → rel i (Eval.assign cx x v) (Eval.assign cx' x v)
  inNewScope : ∀ i {α} {x y : Eval ν α},
    rel (scoping.inner i) x y → rel i (Eval.inNewScope x) (Eval.inNewScope y)
  activate : ∀ i {α} (f : ν) (arguments : List (ν × Value)) {x y : Eval ν α},
    rel (scoping.callee i) x y →
      rel i (Eval.activate cx f arguments x) (Eval.activate cx' f arguments y)

namespace Congruence

variable {cx cx' : Context ν} {scoping : Scoping cx.functions ι}
  {rel : ι → {α : Type} → Eval ν α → Eval ν α → Prop} (C : Congruence cx cx' scoping rel) {i : ι}

include C

/-- A congruence does not look at values. -/
def logical : LogicalRelation cx cx' ι where
  rel i _ _ x y := rel i x y
  good _ := True
  inner := scoping.inner
  callee := scoping.callee
  closed := .everything
  labels := C.label_eq
  exhausted i _ _ y := C.exhausted i y
  pure i _ _ a _ := C.pure i a
  bind i _ _ _ _ _ _ _ _ hx hf := C.bind i hx fun a => hf a fun _ _ => trivial
  fail i _ _ _ cause _ h := C.fail i cause (Cause.not_isLimit_of_ofOperands h)
  inNewScope i _ _ _ _ h := C.inNewScope i h
  activate i _ _ f arguments _ _ _ h := C.activate i f arguments h

theorem callee {f : ν} :
    Option.Rel (C.logical.Callee scoping.Same i) (cx.functions.get? f) (cx'.functions.get? f) := by
  rw [C.functions_eq]
  cases known : cx.functions.get? f with
  | none => exact .none
  | some found => exact .some ⟨rfl, rfl, Scoping.forall₂_same (Scoping.admits_callee known _)⟩

theorem bindName (op : BindOp) (x : ν) (v : Value) (hassign : scoping.assigns i x)
    (hdeclare : op = .defvar → scoping.declares i x) :
    rel i (Eval.bindName cx op x v) (Eval.bindName cx' op x v) := by
  cases op with
  | defvar => exact C.bind i (C.define i x v (hdeclare rfl)) fun _ => C.pure i v
  | setq => exact C.bind i (C.assign i x v hassign) fun _ => C.pure i v

/-- An expression that is allowed has parts that are. -/
theorem parts ⦃i : ι⦄ ⦃e d : Expr ν⦄ (h : scoping.Same i e d) :
    C.logical.Parts scoping.Same i e d := by
  obtain ⟨rfl, h⟩ := h
  cases d with
  | literal value => exact .literal trivial
  | var x => exact .var (C.readPlace i _)
  | element x index => exact .element ⟨rfl, h⟩ fun n => C.readPlace i _
  | unary op operand => exact .unary ⟨rfl, h⟩ fun v _ => C.unary i op v
  | binary op left right =>
      obtain ⟨hleft, hright⟩ := Scoping.admits_append.1 h
      exact .binary ⟨rfl, hleft⟩ ⟨rfl, hright⟩
  | variadic op operands => exact .variadic (Scoping.forall₂_same h)
  | bind op x value =>
      obtain ⟨assigned, declared⟩ := h
      cases op with
      | defvar =>
          obtain ⟨hx, assigned⟩ := List.forall_mem_cons.1 assigned
          obtain ⟨fresh, declared⟩ := List.forall_mem_cons.1 declared
          exact .bind ⟨rfl, assigned, declared⟩ fun v _ => C.bindName .defvar x v hx fun _ => fresh
      | setq =>
          obtain ⟨hx, assigned⟩ := List.forall_mem_cons.1 assigned
          exact .bind ⟨rfl, assigned, declared⟩ fun v _ => C.bindName .setq x v hx nofun
  | update op x value =>
      obtain ⟨hx, assigned⟩ := List.forall_mem_cons.1 h.1
      obtain ⟨fresh, declared⟩ := List.forall_mem_cons.1 h.2
      exact .update ⟨rfl, assigned, declared⟩ fun v _ =>
        LogicalRelation.update op trivial (C.readPlace i _) fun w _ => C.writeVar i x w hx fresh
  | updateElement op x index value =>
      obtain ⟨hx, assigned⟩ := List.forall_mem_cons.1 h.1
      obtain ⟨hindex, hvalue⟩ := Scoping.admits_append.1 ⟨assigned, h.2⟩
      exact .updateElement ⟨rfl, hindex⟩ ⟨rfl, hvalue⟩ fun n v _ =>
        LogicalRelation.update op trivial (C.readPlace i _) fun w _ => C.writeElement i x n w hx
  | ifThen cond yes =>
      obtain ⟨hcond, hyes⟩ := Scoping.admits_append.1 h
      exact .ifThen ⟨rfl, hcond⟩ ⟨rfl, hyes⟩
  | ifElse cond yes no =>
      obtain ⟨hboth, hno⟩ := Scoping.admits_append.1 h
      obtain ⟨hcond, hyes⟩ := Scoping.admits_append.1 hboth
      exact .ifElse ⟨rfl, hcond⟩ ⟨rfl, hyes⟩ ⟨rfl, hno⟩
  | loop stmts => exact .loop (Scoping.forall₂_same h)
  | loopFor x first last stmts =>
      obtain ⟨assigned, declared⟩ := h
      obtain ⟨assigned, inside⟩ := List.forall_mem_append.1 assigned
      obtain ⟨hfirst, hlast⟩ := Scoping.admits_append.1 ⟨assigned, declared⟩
      exact .loopFor ⟨rfl, hfirst⟩ ⟨rfl, hlast⟩
        (Scoping.forall₂_same (Scoping.admits_inner inside _)) fun v _ =>
          C.define _ x v (scoping.declares_inner i x)
  | dotimes x count stmts =>
      obtain ⟨assigned, declared⟩ := h
      obtain ⟨assigned, inside⟩ := List.forall_mem_append.1 assigned
      exact .dotimes ⟨rfl, assigned, declared⟩
        (Scoping.forall₂_same (Scoping.admits_inner inside _)) fun v _ =>
          C.define _ x v (scoping.declares_inner i x)
  | call f args => exact .call (Scoping.forall₂_same h) C.callee
  | ret value => exact .ret ⟨rfl, h⟩

theorem eval_same {n m : Nat} (le : n ≤ m) ⦃i : ι⦄ ⦃e d : Expr ν⦄ (h : scoping.Same i e d) :
    rel i (MiniLisp.eval cx n e) (MiniLisp.eval cx' m d) := C.logical.eval C.parts le h

/-- Evaluations of one expression are related, the second one with as much fuel or more. -/
theorem eval {n m : Nat} (le : n ≤ m) (e : Expr ν) (h : scoping.Admits i e.targets e.declared) :
    rel i (MiniLisp.eval cx n e) (MiniLisp.eval cx' m e) :=
  C.eval_same le ⟨rfl, h⟩

theorem evalAll {n m : Nat} (le : n ≤ m) (es : List (Expr ν))
    (h : scoping.Admits i (Expr.targetsAll es) (Expr.declaredAll es)) :
    rel i (Eval.all (MiniLisp.eval cx n) es) (Eval.all (MiniLisp.eval cx' m) es) :=
  C.logical.all (C.eval_same le) (Scoping.forall₂_same h)

theorem evalBody {n m : Nat} (le : n ≤ m) (stmts : List (Expr ν)) (last : Value)
    (h : scoping.Admits i (Expr.targetsAll stmts) (Expr.declaredAll stmts)) :
    rel i (Eval.body (MiniLisp.eval cx n) stmts last)
      (Eval.body (MiniLisp.eval cx' m) stmts last) :=
  C.logical.body (C.eval_same le) C.parts (Scoping.forall₂_same h) trivial

theorem evalCall {n m : Nat} (le : n ≤ m) (f : ν) (args : List (Expr ν))
    (h : scoping.Admits i (Expr.targetsAll args) (Expr.declaredAll args)) :
    rel i (Eval.call cx (MiniLisp.eval cx n) f args)
      (Eval.call cx' (MiniLisp.eval cx' m) f args) :=
  C.logical.call (C.eval_same le) C.parts (Scoping.forall₂_same h) C.callee

theorem write {n m : Nat} (le : n ≤ m) (target : Target ν) (v : Value)
    (h : scoping.Admits i target.targets target.declared) :
    rel i (Eval.write cx n target v) (Eval.write cx' m target v) := by
  obtain ⟨assigned, declared⟩ := h
  cases target with
  | var x =>
      simp only [Eval.write, Eval.place, pure_bind]
      exact C.writeVar i x v (assigned x List.mem_cons_self) (declared x List.mem_cons_self)
  | element x index =>
      obtain ⟨hx, assigned⟩ := List.forall_mem_cons.1 assigned
      simp only [Eval.write, Eval.place, bind_assoc, pure_bind]
      refine C.bind i (C.logical.index (C.eval_same le) ⟨rfl, assigned, declared⟩) fun n => ?_
      exact C.writeElement i x n v hx

end Congruence

end MiniLisp
