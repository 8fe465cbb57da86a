import Mathlib.Data.List.Forall2
import MiniLisp.Proofs.Causes
import MiniLisp.Proofs.Step

/-!
Comparing evaluations construct by construct. A logical relation relates computations of two contexts
whose results are equal and carry good values only; it is kept by sequence, new scopes and calls, and
operators do not leave the good values. Two expressions have the same form with related parts if the
operations in them are related and their parts are (`Parts`). Main statement: if related expressions
have related parts, as deep as calls go, then they evaluate in related ways (`LogicalRelation.eval`).
-/

namespace MiniLisp

variable {ν ι α : Type}

/-- The values that a result carries. -/
class Carries (α : Type) where
  values : α → List Value

namespace Carries

instance : Carries Value := ⟨fun v => [v]⟩

instance : Carries (List Value) := ⟨id⟩

instance : Carries Number := ⟨fun n => [.number n]⟩

instance : Carries Int64 := ⟨fun _ => []⟩

instance : Carries Unit := ⟨fun _ => []⟩

instance : Carries BodyResult := ⟨fun r => [r.value]⟩

instance : Carries (Option BodyResult) := ⟨fun r => (r.map BodyResult.value).toList⟩

/-- All values that the result carries are good. -/
def Only [Carries α] (good : Value → Prop) (a : α) : Prop := ∀ v ∈ values a, good v

variable {good : Value → Prop}

@[simp] theorem only_value {v : Value} : Only good v ↔ good v := List.forall_mem_singleton

@[simp] theorem only_number {n : Number} : Only good n ↔ good (.number n) := List.forall_mem_singleton

@[simp] theorem only_body {r : BodyResult} : Only good r ↔ good r.value := List.forall_mem_singleton

theorem only_int (n : Int64) : Only good n := List.forall_mem_nil _

theorem only_unit : Only good () := List.forall_mem_nil _

theorem only_none : Only good (none : Option BodyResult) := List.forall_mem_nil _

@[simp] theorem only_some {r : BodyResult} : Only good (some r) ↔ good r.value :=
  List.forall_mem_singleton

end Carries

open Carries (Only)

/-- A kind of values that no operation leaves. -/
structure OperatorClosed (good : Value → Prop) : Prop where
  nil : good .nil
  int : ∀ n, good (.int n)
  increment : ∀ {n m : Number}, good (.number n) → n.increment = .ok m → good (.number m)
  unary : ∀ {op : UnaryOp} {v w} {printer : Printer}, good v → (op.apply v printer).1 = .ok w → good w
  binary : ∀ {op : BinaryOp} {a b v}, good a → good b → op.apply a b = .ok v → good v
  variadic : ∀ {op : VariadicOp} {vs v}, (∀ w ∈ vs, good w) → op.apply vs = .ok v → good v
  element : ∀ {cells : Array Scalar} {s}, good (.array cells) → s ∈ cells → good (.scalar s)
  store : ∀ {cells : Array Scalar} {slot s}, good (.array cells) → good (.scalar s) →
    good (.array (Cells.put cells slot s))

theorem OperatorClosed.everything : OperatorClosed fun _ => True := by
  constructor <;> intros <;> trivial

/-- Names have the same texts in both contexts. -/
abbrev Context.SameLabels (cx cx' : Context ν) : Prop := cx'.label = cx.label

theorem Context.SameLabels.refl (cx : Context ν) : SameLabels cx cx := rfl

/-- A relation between computations of two contexts. It may be another one inside of counted loops and
of calls. A computation that is out of fuel is related to every computation. -/
structure LogicalRelation [DecidableEq ν] (cx cx' : Context ν) (ι : Type) where
  rel : ι → {α : Type} → [Carries α] → Eval ν α → Eval ν α → Prop
  good : Value → Prop
  inner : ι → ι
  callee : ι → ι
  closed : OperatorClosed good
  labels : cx.SameLabels cx'
  exhausted : ∀ i {α} [Carries α] (y : Eval ν α), rel i Run.exhausted y
  pure : ∀ i {α} [Carries α] {a : α}, Only good a → rel i (pure a) (pure a)
  bind : ∀ i {α β} [Carries α] [Carries β] {x y : Eval ν α} {f g : α → Eval ν β},
    rel i x y → (∀ a, Only good a → rel i (f a) (g a)) → rel i (x >>= f) (y >>= g)
  fail : ∀ i {α} [Carries α] {vs : List Value} {cause : Cause}, (∀ v ∈ vs, good v) →
    cause.OfOperands vs → rel i (Eval.fail cx cause : Eval ν α) (Eval.fail cx' cause)
  inNewScope : ∀ i {α} [Carries α] {x y : Eval ν α},
    rel (inner i) x y → rel i (Eval.inNewScope x) (Eval.inNewScope y)
  activate : ∀ i {α} [Carries α] (f : ν) {arguments : List (ν × Value)} {x y : Eval ν α},
    (∀ a ∈ arguments, good a.2) → rel (callee i) x y →
      rel i (Eval.activate cx f arguments x) (Eval.activate cx' f arguments y)

namespace LogicalRelation

variable [DecidableEq ν] {cx cx' : Context ν} (L : LogicalRelation cx cx' ι)

/-- Definitions with the same parameters, whose bodies are related statement by statement. -/
structure Callee (E : ι → Expr ν → Expr ν → Prop) (i : ι) (d d' : Definition ν) : Prop where
  name : d'.fn.name = d.fn.name
  params : d'.fn.params = d.fn.params
  body : List.Forall₂ (E (L.callee i)) d.fn.body d'.fn.body

/-- The same form over related parts, with related operations. Assigning a name may also stand
opposite to updating it. -/
inductive Parts (E : ι → Expr ν → Expr ν → Prop) (i : ι) : Expr ν → Expr ν → Prop
  | literal {value : Scalar} : L.good (.scalar value) → Parts E i (.literal value) (.literal value)
  | var {x : ν} : L.rel i (Eval.readPlace cx (.var x)) (Eval.readPlace cx' (.var x)) →
      Parts E i (.var x) (.var x)
  | element {x : ν} {e d : Expr ν} : E i e d →
      (∀ n, L.rel i (Eval.readPlace cx (.element x n)) (Eval.readPlace cx' (.element x n))) →
      Parts E i (.element x e) (.element x d)
  | unary {op : UnaryOp} {e d : Expr ν} : E i e d →
      (∀ v, L.good v → L.rel i (Eval.unary cx op v) (Eval.unary cx' op v)) →
      Parts E i (.unary op e) (.unary op d)
  | binary {op : BinaryOp} {l r l' r' : Expr ν} : E i l l' → E i r r' →
      Parts E i (.binary op l r) (.binary op l' r')
  | variadic {op : VariadicOp} {es ds : List (Expr ν)} : List.Forall₂ (E i) es ds →
      Parts E i (.variadic op es) (.variadic op ds)
  | bind {op : BindOp} {x : ν} {e d : Expr ν} : E i e d →
      (∀ v, L.good v → L.rel i (Eval.bindName cx op x v) (Eval.bindName cx' op x v)) →
      Parts E i (.bind op x e) (.bind op x d)
  | reassign {x : ν} {e d : Expr ν} : E i e d →
      (∀ v, L.good v → L.rel i (Eval.bindName cx .setq x v) (Eval.update cx' .setf (.var x) v)) →
      Parts E i (.bind .setq x e) (.update .setf x d)
  | update {op : UpdateOp} {x : ν} {e d : Expr ν} : E i e d →
      (∀ v, L.good v → L.rel i (Eval.update cx op (.var x) v) (Eval.update cx' op (.var x) v)) →
      Parts E i (.update op x e) (.update op x d)
  | updateElement {op : UpdateOp} {x : ν} {index index' e d : Expr ν} : E i index index' → E i e d →
      (∀ n v, L.good v →
        L.rel i (Eval.update cx op (.element x n) v) (Eval.update cx' op (.element x n) v)) →
      Parts E i (.updateElement op x index e) (.updateElement op x index' d)
  | ifThen {c c' a a' : Expr ν} : E i c c' → E i a a' → Parts E i (.ifThen c a) (.ifThen c' a')
  | ifElse {c c' a a' b b' : Expr ν} : E i c c' → E i a a' → E i b b' →
      Parts E i (.ifElse c a b) (.ifElse c' a' b')
  | loop {es ds : List (Expr ν)} : List.Forall₂ (E i) es ds → Parts E i (.loop es) (.loop ds)
  | loopFor {x : ν} {a a' b b' : Expr ν} {es ds : List (Expr ν)} : E i a a' → E i b b' →
      List.Forall₂ (E (L.inner i)) es ds →
      (∀ v, L.good v → L.rel (L.inner i) (Eval.define x v) (Eval.define x v)) →
      Parts E i (.loopFor x a b es) (.loopFor x a' b' ds)
  | dotimes {x : ν} {c c' : Expr ν} {es ds : List (Expr ν)} : E i c c' →
      List.Forall₂ (E (L.inner i)) es ds →
      (∀ v, L.good v → L.rel (L.inner i) (Eval.define x v) (Eval.define x v)) →
      Parts E i (.dotimes x c es) (.dotimes x c' ds)
  | call {f : ν} {es ds : List (Expr ν)} : List.Forall₂ (E i) es ds →
      Option.Rel (L.Callee E i) (cx.functions.get? f) (cx'.functions.get? f) →
      Parts E i (.call f es) (.call f ds)
  | ret {e d : Expr ν} : E i e d → Parts E i (.ret e) (.ret d)

variable {L} {i : ι}

/-! ### Operations -/

/-- An operation that blames its operands, which are good, and yields good values. -/
theorem ofExcept [Carries α] {vs : List Value} {r : Except Cause α} (hvs : ∀ v ∈ vs, L.good v)
    (blames : Blames vs r) (results : ∀ a, r = .ok a → Only L.good a) :
    L.rel i (Eval.ofExcept cx r) (Eval.ofExcept cx' r) := by
  cases r with
  | ok a => exact L.pure i (results a rfl)
  | error cause => exact L.fail i hvs (blames cause rfl)

theorem number (symbol : String) {v : Value} (hv : L.good v) :
    L.rel i (Eval.ofExcept cx (Operand.number symbol v))
      (Eval.ofExcept cx' (Operand.number symbol v)) := by
  refine ofExcept (List.forall_mem_singleton.2 hv) (Operand.blames_number symbol v) fun n found => ?_
  cases Operand.number_eq_ok.1 found
  exact Carries.only_number.2 hv

theorem integer (symbol : String) {v : Value} (hv : L.good v) :
    L.rel i (Eval.ofExcept cx (Operand.integer symbol v))
      (Eval.ofExcept cx' (Operand.integer symbol v)) :=
  ofExcept (List.forall_mem_singleton.2 hv) (Operand.blames_integer symbol v) fun n _ =>
    Carries.only_int n

/-- An update reads and writes its place. -/
theorem update (op : UpdateOp) {place : Place ν} {v : Value} (hv : L.good v)
    (read : L.rel i (Eval.readPlace cx place) (Eval.readPlace cx' place))
    (write : ∀ w, L.good w → L.rel i (Eval.writePlace cx place w) (Eval.writePlace cx' place w)) :
    L.rel i (Eval.update cx op place v) (Eval.update cx' op place v) := by
  cases op with
  | setf => exact write v hv
  | move direction =>
      refine L.bind i read fun current good => ?_
      refine L.bind i (integer _ (Carries.only_value.1 good)) fun n _ => ?_
      refine L.bind i (integer _ hv) fun amount _ => ?_
      split
      · exact write _ (L.closed.int _)
      · exact L.fail i (List.forall_mem_nil L.good) trivial

/-! ### Loops -/

section Loops

variable {body body' : Eval ν BodyResult} (hbody : L.rel i body body')

include hbody

theorem forever {n m : Nat} (le : n ≤ m) :
    L.rel i (Eval.forever body n) (Eval.forever body' m) := by
  induction n generalizing m with
  | zero => exact L.exhausted i _
  | succ n ih =>
      obtain ⟨m, rfl⟩ : ∃ k, m = k + 1 := ⟨m - 1, by omega⟩
      refine L.bind i hbody fun result good => ?_
      cases result with
      | returned v => exact L.pure i (Carries.only_value.2 (Carries.only_body.1 good))
      | completed v => exact ih (Nat.le_of_succ_le_succ le)

variable {x : ν} (hx : ∀ v, L.good v → L.rel i (Eval.define x v) (Eval.define x v))

include hx

theorem forRange (last : Number) {n m : Nat} (le : n ≤ m) {counter : Number}
    (hcounter : L.good (.number counter)) :
    L.rel i (Eval.forRange cx x last body n counter) (Eval.forRange cx' x last body' m counter) := by
  induction n generalizing m counter with
  | zero => exact L.exhausted i _
  | succ n ih =>
      obtain ⟨m, rfl⟩ : ∃ k, m = k + 1 := ⟨m - 1, by omega⟩
      unfold Eval.forRange
      split
      · refine L.bind i (hx _ hcounter) fun _ _ => L.bind i hbody fun result good => ?_
        cases result with
        | returned v => exact L.pure i (Carries.only_value.2 (Carries.only_body.1 good))
        | completed v =>
            refine L.bind i (ofExcept (List.forall_mem_nil L.good) counter.blames_increment ?_)
              fun next good => ih (Nat.le_of_succ_le_succ le) (Carries.only_number.1 good)
            exact fun next moved => Carries.only_number.2 (L.closed.increment hcounter moved)
      · exact L.pure i (Carries.only_value.2 L.closed.nil)

theorem times (left done : Nat) :
    L.rel i (Eval.times x body left done) (Eval.times x body' left done) := by
  induction left generalizing done with
  | zero => exact L.pure i (Carries.only_value.2 L.closed.nil)
  | succ left ih =>
      refine L.bind i (hx _ (L.closed.int _)) fun _ _ => L.bind i hbody fun result good => ?_
      cases result with
      | returned v => exact L.pure i (Carries.only_value.2 (Carries.only_body.1 good))
      | completed v => exact ih (done + 1)

end Loops

/-! ### Forms -/

section Forms

variable {E : ι → Expr ν → Expr ν → Prop} {rec rec' : Expr ν → Eval ν Value}
  (hrec : ∀ ⦃i : ι⦄ ⦃e d : Expr ν⦄, E i e d → L.rel i (rec e) (rec' d))

include hrec

theorem all {es ds : List (Expr ν)} (h : List.Forall₂ (E i) es ds) :
    L.rel i (Eval.all rec es) (Eval.all rec' ds) := by
  induction h with
  | nil => exact L.pure i (List.forall_mem_nil L.good)
  | cons first _ ih =>
      refine L.bind i (hrec first) fun v hv => L.bind i ih fun vs hvs => L.pure i ?_
      exact List.forall_mem_cons.2 ⟨Carries.only_value.1 hv, hvs⟩

theorem index {e d : Expr ν} (h : E i e d) :
    L.rel i (Eval.index cx rec e) (Eval.index cx' rec' d) := by
  refine L.bind i (hrec h) fun v hv => ?_
  split
  · exact L.pure i (Carries.only_int _)
  · exact L.fail i hv ⟨v, List.mem_singleton_self v, rfl⟩

section Bodies

variable (hE : ∀ ⦃i : ι⦄ ⦃e d : Expr ν⦄, E i e d → L.Parts E i e d)

include hE

/-- A statement is followed from `if` to branch, so the recursion is on the statement. -/
theorem statement : ∀ {e d : Expr ν}, E i e d →
    L.rel i (Eval.statement rec e) (Eval.statement rec' d)
  | .ifThen cond yes, d, h => by
      cases hE h with
      | ifThen hcond hyes =>
          rw [Eval.statement_ifThen, Eval.statement_ifThen]
          refine L.bind i (hrec hcond) fun v _ => ?_
          split
          · exact statement hyes
          · exact L.pure i Carries.only_none
  | .ifElse cond yes no, d, h => by
      cases hE h with
      | ifElse hcond hyes hno =>
          rw [Eval.statement_ifElse, Eval.statement_ifElse]
          refine L.bind i (hrec hcond) fun v _ => ?_
          split
          · exact statement hyes
          · exact statement hno
  | .ret e, d, h => by
      cases hE h with
      | ret value =>
          rw [Eval.statement_ret, Eval.statement_ret]
          exact L.bind i (hrec value) fun v hv =>
            L.pure i (Carries.only_some.2 (Carries.only_value.1 hv))
  | .literal _, d, h | .var _, d, h | .element _ _, d, h | .unary _ _, d, h | .binary _ _ _, d, h
  | .variadic _ _, d, h | .bind _ _ _, d, h | .update _ _ _, d, h | .updateElement _ _ _ _, d, h
  | .loop _, d, h | .loopFor _ _ _ _, d, h | .dotimes _ _ _, d, h | .call _ _, d, h => by
      have plain : d.isPlain := by cases hE h <;> rfl
      rw [Eval.statement_of_plain rec rfl, Eval.statement_of_plain rec' plain]
      exact L.bind i (hrec h) fun v hv => L.pure i (Carries.only_some.2 (Carries.only_value.1 hv))

theorem body {es ds : List (Expr ν)} (h : List.Forall₂ (E i) es ds) {last : Value}
    (hlast : L.good last) : L.rel i (Eval.body rec es last) (Eval.body rec' ds last) := by
  induction h generalizing last with
  | nil => exact L.pure i (Carries.only_body.2 hlast)
  | cons first _ ih =>
      rw [Eval.body_cons, Eval.body_cons]
      refine L.bind i (statement hrec hE first) fun result good => ?_
      match result with
      | none => exact ih hlast
      | some (.returned v) => exact L.pure i (Carries.only_body.2 (Carries.only_some.1 good))
      | some (.completed v) => exact ih (Carries.only_some.1 good)

theorem call {f : ν} {es ds : List (Expr ν)} (h : List.Forall₂ (E i) es ds)
    (known : Option.Rel (L.Callee E i) (cx.functions.get? f) (cx'.functions.get? f)) :
    L.rel i (Eval.call cx rec f es) (Eval.call cx' rec' f ds) := by
  unfold Eval.call
  rw [L.labels]
  generalize cx.functions.get? f = found, cx'.functions.get? f = found' at known
  cases known with
  | none => exact L.fail i (List.forall_mem_nil L.good) trivial
  | @some found found' same =>
      refine L.bind i (all hrec h) fun values hvalues => ?_
      have arity : found'.fn.checkArity cx.label = found.fn.checkArity cx.label := by
        funext got
        rw [FunctionDef.checkArity, FunctionDef.checkArity, same.name, same.params]
      have arguments : found'.fn.arguments values = found.fn.arguments values := by
        rw [FunctionDef.arguments, FunctionDef.arguments, same.params]
      rw [arity, arguments]
      refine L.bind i (ofExcept (List.forall_mem_nil L.good) (found.fn.blames_checkArity cx.label _)
        fun _ _ => Carries.only_unit) fun _ _ => ?_
      refine L.bind i (L.activate i f (fun a mem => ?_) (body hrec hE same.body L.closed.nil))
        fun result good => L.pure i (Carries.only_value.2 (Carries.only_body.1 good))
      exact hvalues a.2 (List.of_mem_zip mem).2

/-- One step of evaluation, with one case for each form. -/
theorem step {n m : Nat} (le : n ≤ m) {e d : Expr ν} (h : E i e d) :
    L.rel i (Eval.step cx rec n e) (Eval.step cx' rec' m d) := by
  cases hE h with
  | literal good => exact L.pure i (Carries.only_value.2 good)
  | var read => exact read
  | element hindex read => exact L.bind i (index hrec hindex) fun n _ => read n
  | unary value apply =>
      exact L.bind i (hrec value) fun v hv => apply v (Carries.only_value.1 hv)
  | @binary op l r l' r' left right =>
      refine L.bind i (hrec left) fun a ha => L.bind i (hrec right) fun b hb => ?_
      rw [Carries.only_value] at ha hb
      refine ofExcept ?_ (op.blames_apply a b) fun v made =>
        Carries.only_value.2 (L.closed.binary ha hb made)
      simp [ha, hb]
  | @variadic op es ds operands =>
      refine L.bind i (all hrec operands) fun vs hvs => ?_
      exact ofExcept hvs (op.blames_apply vs) fun v made =>
        Carries.only_value.2 (L.closed.variadic hvs made)
  | bind value bound =>
      exact L.bind i (hrec value) fun v hv => bound v (Carries.only_value.1 hv)
  | reassign value bound =>
      exact L.bind i (hrec value) fun v hv => bound v (Carries.only_value.1 hv)
  | update value updated =>
      exact L.bind i (hrec value) fun v hv => updated v (Carries.only_value.1 hv)
  | updateElement hindex value updated =>
      refine L.bind i (hrec value) fun v hv => L.bind i (index hrec hindex) fun n _ => ?_
      exact updated n v (Carries.only_value.1 hv)
  | ifThen cond yes =>
      refine L.bind i (hrec cond) fun v _ => ?_
      split
      · exact hrec yes
      · exact L.pure i (Carries.only_value.2 L.closed.nil)
  | ifElse cond yes no =>
      refine L.bind i (hrec cond) fun v _ => ?_
      split
      · exact hrec yes
      · exact hrec no
  | loop stmts => exact forever (body hrec hE stmts L.closed.nil) le
  | loopFor first last stmts hx =>
      refine L.bind i (hrec first) fun v hv => L.bind i (hrec last) fun w hw => ?_
      refine L.bind i (number _ (Carries.only_value.1 hv)) fun start hstart => ?_
      refine L.bind i (number _ (Carries.only_value.1 hw)) fun stop _ => L.inNewScope i ?_
      exact forRange (body hrec hE stmts L.closed.nil) hx stop le (Carries.only_number.1 hstart)
  | dotimes count stmts hx =>
      refine L.bind i (hrec count) fun v hv => ?_
      refine L.bind i (integer _ (Carries.only_value.1 hv)) fun n _ => L.inNewScope i ?_
      exact times (body hrec hE stmts L.closed.nil) hx _ 0
  | call args known => exact call hrec hE args known
  | ret value => exact hrec value

end Bodies

end Forms

/-- Expressions that are related, and whose parts are, evaluate in related ways, the second one with
as much fuel or more. -/
theorem eval {E : ι → Expr ν → Expr ν → Prop}
    (hE : ∀ ⦃i : ι⦄ ⦃e d : Expr ν⦄, E i e d → L.Parts E i e d) {n m : Nat} (le : n ≤ m)
    {e d : Expr ν} (h : E i e d) : L.rel i (MiniLisp.eval cx n e) (MiniLisp.eval cx' m d) := by
  induction n generalizing m i e d with
  | zero => exact L.exhausted i _
  | succ n ih =>
      obtain ⟨m, rfl⟩ : ∃ k, m = k + 1 := ⟨m - 1, by omega⟩
      have le := Nat.le_of_succ_le_succ le
      exact step (fun _ _ _ h => ih le h) hE le h

end LogicalRelation

end MiniLisp
