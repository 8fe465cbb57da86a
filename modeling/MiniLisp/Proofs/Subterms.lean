import MiniLisp.Proofs.LogicalRelation

/-!
What occurs in an expression. The subterms of an expression are the expression itself and those of its
parts. Main statement: if the operation of every subterm is related to itself, here and in the bodies
of called functions, then so is the evaluation of the expression (`LogicalRelation.Local.eval`).
-/

namespace MiniLisp

variable {ν ι : Type}

/-- The expressions right inside of an expression. -/
def Expr.parts : Expr ν → List (Expr ν)
  | .literal _ => []
  | .var _ => []
  | .element _ index => [index]
  | .unary _ operand => [operand]
  | .binary _ left right => [left, right]
  | .variadic _ operands => operands
  | .bind _ _ value => [value]
  | .update _ _ value => [value]
  | .updateElement _ _ index value => [index, value]
  | .ifThen cond yes => [cond, yes]
  | .ifElse cond yes no => [cond, yes, no]
  | .loop body => body
  | .loopFor _ first last body => first :: last :: body
  | .dotimes _ count body => count :: body
  | .call _ args => args
  | .ret value => [value]

mutual

/-- The expression, its parts, their parts and so on. The bodies of called functions are no parts. -/
def Expr.subterms : Expr ν → List (Expr ν)
  | .literal value => [.literal value]
  | .var x => [.var x]
  | .element x index => .element x index :: index.subterms
  | .unary op operand => .unary op operand :: operand.subterms
  | .binary op left right => .binary op left right :: (left.subterms ++ right.subterms)
  | .variadic op operands => .variadic op operands :: Expr.subtermsAll operands
  | .bind op x value => .bind op x value :: value.subterms
  | .update op x value => .update op x value :: value.subterms
  | .updateElement op x index value =>
      .updateElement op x index value :: (index.subterms ++ value.subterms)
  | .ifThen cond yes => .ifThen cond yes :: (cond.subterms ++ yes.subterms)
  | .ifElse cond yes no => .ifElse cond yes no :: (cond.subterms ++ (yes.subterms ++ no.subterms))
  | .loop body => .loop body :: Expr.subtermsAll body
  | .loopFor x first last body =>
      .loopFor x first last body :: (first.subterms ++ (last.subterms ++ Expr.subtermsAll body))
  | .dotimes x count body => .dotimes x count body :: (count.subterms ++ Expr.subtermsAll body)
  | .call f args => .call f args :: Expr.subtermsAll args
  | .ret value => .ret value :: value.subterms

def Expr.subtermsAll : List (Expr ν) → List (Expr ν)
  | [] => []
  | e :: rest => e.subterms ++ Expr.subtermsAll rest

end

namespace Expr

variable {c d e : Expr ν} {es : List (Expr ν)}

theorem subterms_eq (e : Expr ν) : e.subterms = e :: subtermsAll e.parts := by
  cases e <;> simp [subterms, subtermsAll, parts]

theorem self_mem_subterms (e : Expr ν) : e ∈ e.subterms := by
  rw [subterms_eq]
  exact List.mem_cons_self

theorem mem_subtermsAll : c ∈ subtermsAll es ↔ ∃ e ∈ es, c ∈ e.subterms := by
  induction es with
  | nil => simp [subtermsAll]
  | cons e rest ih => simp [subtermsAll, ih]

theorem mem_subterms : c ∈ e.subterms ↔ c = e ∨ ∃ d ∈ e.parts, c ∈ d.subterms := by
  rw [subterms_eq, List.mem_cons, mem_subtermsAll]

theorem mem_subterms_of_mem_parts (hd : d ∈ e.parts) (hc : c ∈ d.subterms) : c ∈ e.subterms := by
  exact mem_subterms.2 (.inr ⟨d, hd, hc⟩)

theorem sizeOf_lt_of_mem_parts (h : d ∈ e.parts) : sizeOf d < sizeOf e := by
  have inside : ∀ {es : List (Expr ν)}, d ∈ es → sizeOf d < sizeOf es := List.sizeOf_lt_of_mem
  cases e <;> simp only [parts, List.mem_cons, List.not_mem_nil, or_false] at h
  all_goals grind

/-- What holds of an expression if it holds of its parts, holds of all expressions. -/
theorem parts_induction {motive : Expr ν → Prop}
    (step : ∀ e, (∀ d ∈ e.parts, motive d) → motive e) (e : Expr ν) : motive e :=
  step e fun d _ => parts_induction step d
termination_by e
decreasing_by exact sizeOf_lt_of_mem_parts ‹_›

end Expr

namespace LogicalRelation

variable [DecidableEq ν] {cx cx' : Context ν} (L : LogicalRelation cx cx' ι)

/-- The operation of the outermost form is related to itself. -/
def Operates (i : ι) : Expr ν → Prop
  | .literal value => L.good (.scalar value)
  | .var x => L.rel i (Eval.readPlace cx (.var x)) (Eval.readPlace cx' (.var x))
  | .element x _ =>
      ∀ n, L.rel i (Eval.readPlace cx (.element x n)) (Eval.readPlace cx' (.element x n))
  | .unary op _ => ∀ v, L.good v → L.rel i (Eval.unary cx op v) (Eval.unary cx' op v)
  | .bind op x _ => ∀ v, L.good v → L.rel i (Eval.bindName cx op x v) (Eval.bindName cx' op x v)
  | .update op x _ =>
      ∀ v, L.good v → L.rel i (Eval.update cx op (.var x) v) (Eval.update cx' op (.var x) v)
  | .updateElement op x _ _ =>
      ∀ n v, L.good v →
        L.rel i (Eval.update cx op (.element x n) v) (Eval.update cx' op (.element x n) v)
  | .loopFor x _ _ _ => ∀ v, L.good v → L.rel (L.inner i) (Eval.define x v) (Eval.define x v)
  | .dotimes x _ _ => ∀ v, L.good v → L.rel (L.inner i) (Eval.define x v) (Eval.define x v)
  | _ => True

/-- Conditions on forms under which a relation holds of evaluations: the operation of a form is
related to itself, and a call means the same function, whose body meets the conditions, or none. -/
structure Local (ok : Expr ν → Prop) : Prop where
  operates : ∀ i e, ok e → L.Operates i e
  functions : ∀ f args, ok (.call f args) →
    Option.Rel (fun d d' => d'.fn = d.fn ∧ ∀ c ∈ Expr.subtermsAll d.fn.body, ok c)
      (cx.functions.get? f) (cx'.functions.get? f)

variable {L} {ok : Expr ν → Prop}

theorem Local.parts (h : L.Local ok) ⦃i : ι⦄ ⦃e d : Expr ν⦄
    (same : d = e ∧ ∀ c ∈ e.subterms, ok c) :
    L.Parts (fun _ e d => d = e ∧ ∀ c ∈ e.subterms, ok c) i e d := by
  obtain ⟨rfl, all⟩ := same
  have here := h.operates i d (all d d.self_mem_subterms)
  have inside : ∀ p ∈ d.parts, p = p ∧ ∀ c ∈ p.subterms, ok c := fun p mem =>
    ⟨rfl, fun c hc => all c (Expr.mem_subterms_of_mem_parts mem hc)⟩
  have forall₂ : ∀ es : List (Expr ν), (∀ p ∈ es, p ∈ d.parts) →
      List.Forall₂ (fun e d => d = e ∧ ∀ c ∈ e.subterms, ok c) es es := fun es sub =>
    List.forall₂_same.2 fun p mem => inside p (sub p mem)
  cases d with
  | literal value => exact .literal here
  | var x => exact .var here
  | element x index => exact .element (inside index (by simp [Expr.parts])) here
  | unary op operand => exact .unary (inside operand (by simp [Expr.parts])) here
  | binary op left right =>
      exact .binary (inside left (by simp [Expr.parts])) (inside right (by simp [Expr.parts]))
  | variadic op operands => exact .variadic (forall₂ operands (by simp [Expr.parts]))
  | bind op x value => exact .bind (inside value (by simp [Expr.parts])) here
  | update op x value => exact .update (inside value (by simp [Expr.parts])) here
  | updateElement op x index value =>
      exact .updateElement (inside index (by simp [Expr.parts]))
        (inside value (by simp [Expr.parts])) here
  | ifThen cond yes =>
      exact .ifThen (inside cond (by simp [Expr.parts])) (inside yes (by simp [Expr.parts]))
  | ifElse cond yes no =>
      exact .ifElse (inside cond (by simp [Expr.parts])) (inside yes (by simp [Expr.parts]))
        (inside no (by simp [Expr.parts]))
  | loop stmts => exact .loop (forall₂ stmts (by simp [Expr.parts]))
  | loopFor x first last stmts =>
      exact .loopFor (inside first (by simp [Expr.parts])) (inside last (by simp [Expr.parts]))
        (forall₂ stmts (by simp +contextual [Expr.parts])) here
  | dotimes x count stmts =>
      exact .dotimes (inside count (by simp [Expr.parts]))
        (forall₂ stmts (by simp +contextual [Expr.parts])) here
  | call f args =>
      refine .call (forall₂ args (by simp [Expr.parts])) ?_
      have known := h.functions f args (all _ (Expr.self_mem_subterms _))
      generalize cx.functions.get? f = found, cx'.functions.get? f = found' at known
      cases known with
      | none => exact .none
      | @some found found' callee =>
          obtain ⟨same, body⟩ := callee
          refine .some ⟨by rw [same], by rw [same], ?_⟩
          rw [same]
          exact List.forall₂_same.2 fun p mem =>
            ⟨rfl, fun c hc => body c (Expr.mem_subtermsAll.2 ⟨p, mem, hc⟩)⟩
  | ret value => exact .ret (inside value (by simp [Expr.parts]))

/-- Evaluations of an expression are related if all its subterms meet the conditions. -/
theorem Local.eval (h : L.Local ok) (i : ι) {n m : Nat} (le : n ≤ m) {e : Expr ν}
    (all : ∀ c ∈ e.subterms, ok c) :
    L.rel i (MiniLisp.eval cx n e) (MiniLisp.eval cx' m e) :=
  LogicalRelation.eval h.parts le ⟨rfl, all⟩

end LogicalRelation

end MiniLisp
