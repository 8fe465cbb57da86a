import MiniLisp.Proofs.Correspondence
import MiniLisp.Proofs.Fuel
import MiniLisp.Proofs.Step

/-!
Programs that do the same. Two expressions are similar if they are built alike over corresponding
names, except that where a value is wanted there may be returns around it, which do nothing there. Main
statement: evaluation in one context is followed by the evaluation of a similar expression in a
corresponding context (`simulatedBy_eval`).
-/

open Filter

namespace MiniLisp

variable {ν μ α : Type}

/-- Where an expression stands: its value is wanted, or it is a statement of a body. -/
inductive Position where
  | value
  | statement
  deriving DecidableEq

/-- Built alike over corresponding names, up to returns where a value is wanted. A branch stands where
its `if` stands. Lists of parts are compared place by place, so that an induction reaches the parts. -/
inductive Expr.Similar (N : ν → μ → Prop) : Position → Expr ν → Expr μ → Prop
  | literal (v : Scalar) : Similar N .value (.literal v) (.literal v)
  | var {x y} : N x y → Similar N .value (.var x) (.var y)
  | element {x y i j} : N x y → Similar N .value i j →
      Similar N .value (.element x i) (.element y j)
  | unary (op : UnaryOp) {e d} : Similar N .value e d → Similar N .value (.unary op e) (.unary op d)
  | binary (op : BinaryOp) {l r l' r'} : Similar N .value l l' → Similar N .value r r' →
      Similar N .value (.binary op l r) (.binary op l' r')
  | variadic (op : VariadicOp) {es : List (Expr ν)} {ds : List (Expr μ)} :
      es.length = ds.length → (∀ i h h', Similar N .value (es.get ⟨i, h⟩) (ds.get ⟨i, h'⟩)) →
      Similar N .value (.variadic op es) (.variadic op ds)
  | bind (op : BindOp) {x y e d} : N x y → Similar N .value e d →
      Similar N .value (.bind op x e) (.bind op y d)
  | update (op : UpdateOp) {x y e d} : N x y → Similar N .value e d →
      Similar N .value (.update op x e) (.update op y d)
  | updateElement (op : UpdateOp) {x y i j e d} : N x y → Similar N .value i j →
      Similar N .value e d → Similar N .value (.updateElement op x i e) (.updateElement op y j d)
  | ifThen {p c c' a a'} : Similar N .value c c' → Similar N p a a' →
      Similar N p (.ifThen c a) (.ifThen c' a')
  | ifElse {p c c' a a' b b'} : Similar N .value c c' → Similar N p a a' → Similar N p b b' →
      Similar N p (.ifElse c a b) (.ifElse c' a' b')
  | loop {es : List (Expr ν)} {ds : List (Expr μ)} : es.length = ds.length →
      (∀ i h h', Similar N .statement (es.get ⟨i, h⟩) (ds.get ⟨i, h'⟩)) →
      Similar N .value (.loop es) (.loop ds)
  | loopFor {x y a a' b b'} {es : List (Expr ν)} {ds : List (Expr μ)} : N x y →
      Similar N .value a a' → Similar N .value b b' → es.length = ds.length →
      (∀ i h h', Similar N .statement (es.get ⟨i, h⟩) (ds.get ⟨i, h'⟩)) →
      Similar N .value (.loopFor x a b es) (.loopFor y a' b' ds)
  | dotimes {x y c c'} {es : List (Expr ν)} {ds : List (Expr μ)} : N x y →
      Similar N .value c c' → es.length = ds.length →
      (∀ i h h', Similar N .statement (es.get ⟨i, h⟩) (ds.get ⟨i, h'⟩)) →
      Similar N .value (.dotimes x c es) (.dotimes y c' ds)
  | call {f g} {es : List (Expr ν)} {ds : List (Expr μ)} : N f g → es.length = ds.length →
      (∀ i h h', Similar N .value (es.get ⟨i, h⟩) (ds.get ⟨i, h'⟩)) →
      Similar N .value (.call f es) (.call g ds)
  | retLeft {e d} : Similar N .value e d → Similar N .value (.ret e) d
  | retRight {e d} : Similar N .value e d → Similar N .value e (.ret d)
  | plain {e d} : e.isPlain → d.isPlain → Similar N .value e d → Similar N .statement e d
  | returned {e d} : Similar N .value e d → Similar N .statement (.ret e) (.ret d)

namespace Expr.Similar

variable {N : ν → μ → Prop} {p : Position} {e : Expr ν} {d : Expr μ}

/-- Plain expressions that are similar as values are similar everywhere. -/
theorem of_plain (h : Similar N .value e d) (plain : e.isPlain) (plain' : d.isPlain) :
    Similar N p e d := by
  cases p with
  | value => exact h
  | statement => exact .plain plain plain' h

theorem symm {M : μ → ν → Prop} (turn : ∀ x y, N x y → M y x) (h : Similar N p e d) :
    Similar M p d e := by
  induction h with
  | literal v => exact .literal v
  | var hx => exact .var (turn _ _ hx)
  | element hx _ ih => exact .element (turn _ _ hx) ih
  | unary op _ ih => exact .unary op ih
  | binary op _ _ left right => exact .binary op left right
  | variadic op length _ ih => exact .variadic op length.symm fun i h h' => ih i h' h
  | bind op hx _ ih => exact .bind op (turn _ _ hx) ih
  | update op hx _ ih => exact .update op (turn _ _ hx) ih
  | updateElement op hx _ _ index value => exact .updateElement op (turn _ _ hx) index value
  | ifThen _ _ cond yes => exact .ifThen cond yes
  | ifElse _ _ _ cond yes no => exact .ifElse cond yes no
  | loop length _ ih => exact .loop length.symm fun i h h' => ih i h' h
  | loopFor hx _ _ length _ first last ih =>
      exact .loopFor (turn _ _ hx) first last length.symm fun i h h' => ih i h' h
  | dotimes hx _ length _ count ih =>
      exact .dotimes (turn _ _ hx) count length.symm fun i h h' => ih i h' h
  | call hf length _ ih => exact .call (turn _ _ hf) length.symm fun i h h' => ih i h' h
  | retLeft _ ih => exact .retRight ih
  | retRight _ ih => exact .retLeft ih
  | plain plain plain' _ ih => exact .plain plain' plain ih
  | returned _ ih => exact .returned ih

end Expr.Similar

/-- Functions with corresponding names whose bodies are similar statement by statement. -/
structure FunctionDef.Similar (N : ν → μ → Prop) (fn : FunctionDef ν) (fn' : FunctionDef μ) :
    Prop where
  name : N fn.name fn'.name
  params : List.Forall₂ N fn.params fn'.params
  body : List.Forall₂ (Expr.Similar N .statement) fn.body fn'.body

variable [DecidableEq ν] [DecidableEq μ]

/-- Corresponding names stand for similar functions or for none. -/
def FunctionTable.Similar (N : ν → μ → Prop) (functions : FunctionTable ν)
    (functions' : FunctionTable μ) : Prop :=
  ∀ f g, N f g →
    Option.Rel (fun a b => FunctionDef.Similar N a.fn b.fn) (functions.get? f) (functions'.get? g)

/-- Contexts with similar functions that report errors alike. -/
structure Context.Similar (R : Correspondence ν μ) (cx : Context ν) (cx' : Context μ) : Prop
    extends Context.Reports R cx cx' where
  functions : FunctionTable.Similar R.names cx.functions cx'.functions

namespace FunctionDef.Similar

variable {R : Correspondence ν μ} {fn : FunctionDef ν} {fn' : FunctionDef μ}
  (h : Similar R.names fn fn')

include h

theorem checkArity_eq {label : ν → String} {label' : μ → String}
    (labels : ∀ x y, R.names x y → label' y = label x) (got : Nat) :
    fn'.checkArity label' got = fn.checkArity label got := by
  unfold checkArity
  rw [labels _ _ h.name, h.params.length_eq]

theorem arguments (values : List Value) : R.Arguments (fn.arguments values) (fn'.arguments values) := by
  have params := h.params
  unfold Correspondence.Arguments FunctionDef.arguments
  generalize fn.params = xs, fn'.params = ys at params
  induction params generalizing values with
  | nil => exact .nil
  | cons hx _ ih =>
      cases values with
      | nil => exact .nil
      | cons v rest => exact .cons ⟨hx, rfl⟩ (ih rest)

end FunctionDef.Similar

namespace Run.SimulatedBy

variable {R : Correspondence ν μ} {cx : Context ν} {cx' : Context μ}

/-! ### Loops -/

section Loops

variable {body : Eval ν BodyResult} {body' : Nat → Eval μ BodyResult}
  (hbody : SimulatedBy (State.Corresponds R) body body')

include hbody

/-- The family may lack the fuel of the rounds before. -/
theorem forever (budget spent : Nat) :
    SimulatedBy (State.Corresponds R) (Eval.forever body budget)
      fun n => Eval.forever (body' n) (n - spent) := by
  induction budget generalizing spent with
  | zero => exact exhausted
  | succ budget ih =>
      have unrolled : SimulatedBy (State.Corresponds R) (Eval.forever body (budget + 1))
          fun n => Eval.forever (body' n) (n - (spent + 1) + 1) := by
        refine hbody.bind fun result => ?_
        cases result with
        | returned v => exact pure v
        | completed v => exact ih (spent + 1)
      refine unrolled.congr ?_
      filter_upwards [eventually_gt_atTop spent] with n enough
      rw [show n - spent = n - (spent + 1) + 1 by omega]

variable {x : ν} {y : μ} (hx : R.names x y)

include hx

theorem times (left done : Nat) :
    SimulatedBy (State.Corresponds R) (Eval.times x body left done)
      fun n => Eval.times y (body' n) left done := by
  induction left generalizing done with
  | zero => exact pure Value.nil
  | succ left ih =>
      refine (define hx _).bind fun _ => hbody.bind fun result => ?_
      cases result with
      | returned v => exact pure v
      | completed v => exact ih (done + 1)

theorem forRange (same : Context.Reports R cx cx') (last : Number) (budget spent : Nat)
    (counter : Number) :
    SimulatedBy (State.Corresponds R) (Eval.forRange cx x last body budget counter)
      fun n => Eval.forRange cx' y last (body' n) (n - spent) counter := by
  induction budget generalizing spent counter with
  | zero => exact exhausted
  | succ budget ih =>
      have unrolled : SimulatedBy (State.Corresponds R)
          (Eval.forRange cx x last body (budget + 1) counter)
          fun n => Eval.forRange cx' y last (body' n) (n - (spent + 1) + 1) counter := by
        unfold Eval.forRange
        split
        · refine (define hx _).bind fun _ => hbody.bind fun result => ?_
          cases result with
          | returned v => exact pure v
          | completed v => exact (ofExcept same _).bind fun next => ih (spent + 1) next
        · exact pure Value.nil
      refine unrolled.congr ?_
      filter_upwards [eventually_gt_atTop spent] with n enough
      rw [show n - spent = n - (spent + 1) + 1 by omega]

end Loops

/-! ### Parts of an evaluation -/

section Parts

variable {rec : Expr ν → Eval ν Value} {rec' : Nat → Expr μ → Eval μ Value}
  (hrec : ∀ e d, Expr.Similar R.names .value e d →
    SimulatedBy (State.Corresponds R) (rec e) fun n => rec' n d)

include hrec

theorem all {es : List (Expr ν)} {ds : List (Expr μ)}
    (h : List.Forall₂ (Expr.Similar R.names .value) es ds) :
    SimulatedBy (State.Corresponds R) (Eval.all rec es) fun n => Eval.all (rec' n) ds := by
  induction h with
  | nil => exact pure []
  | cons first _ ih => exact (hrec _ _ first).bind fun v => ih.bind fun vs => pure (v :: vs)

theorem statement {e : Expr ν} {d : Expr μ} (h : Expr.Similar R.names .statement e d) :
    SimulatedBy (State.Corresponds R) (Eval.statement rec e) fun n => Eval.statement (rec' n) d := by
  generalize standing : Position.statement = p at h
  induction h with
  | ifThen cond _ _ yes =>
      simp only [Eval.statement_ifThen]
      refine (hrec _ _ cond).bind fun v => ?_
      split
      · exact yes standing
      · exact pure none
  | ifElse cond _ _ _ yes no =>
      simp only [Eval.statement_ifElse]
      refine (hrec _ _ cond).bind fun v => ?_
      split
      · exact yes standing
      · exact no standing
  | plain plain plain' value _ =>
      simp only [Eval.statement_of_plain _ plain, Eval.statement_of_plain _ plain']
      exact (hrec _ _ value).bind fun v => pure _
  | returned value _ =>
      simp only [Eval.statement_ret]
      exact (hrec _ _ value).bind fun v => pure _
  | _ => cases standing

theorem body {stmts : List (Expr ν)} {stmts' : List (Expr μ)}
    (h : List.Forall₂ (Expr.Similar R.names .statement) stmts stmts') (last : Value) :
    SimulatedBy (State.Corresponds R) (Eval.body rec stmts last)
      fun n => Eval.body (rec' n) stmts' last := by
  induction h generalizing last with
  | nil => exact pure (BodyResult.completed last)
  | cons first _ ih =>
      simp only [Eval.body_cons]
      refine (statement hrec first).bind fun result => ?_
      match result with
      | none => exact ih last
      | some (.returned v) => exact pure (BodyResult.returned v)
      | some (.completed v) => exact ih v

theorem index (same : Context.Reports R cx cx') {e : Expr ν} {d : Expr μ}
    (h : Expr.Similar R.names .value e d) :
    SimulatedBy (State.Corresponds R) (Eval.index cx rec e) fun n => Eval.index cx' (rec' n) d := by
  refine (hrec _ _ h).bind fun v => ?_
  split
  · exact pure _
  · exact fail same _

theorem call (same : Context.Similar R cx cx') {f : ν} {g : μ} (hf : R.names f g)
    {es : List (Expr ν)} {ds : List (Expr μ)}
    (h : List.Forall₂ (Expr.Similar R.names .value) es ds) :
    SimulatedBy (State.Corresponds R) (Eval.call cx rec f es)
      fun n => Eval.call cx' (rec' n) g ds := by
  have known := same.functions f g hf
  unfold Eval.call
  generalize cx.functions.get? f = found, cx'.functions.get? g = found' at known
  cases known with
  | none =>
      rw [same.label f g hf]
      exact fail same.toReports _
  | @some found found' similar =>
      refine (all hrec h).bind fun values => ?_
      rw [similar.checkArity_eq same.label]
      refine (ofExcept same.toReports _).bind fun _ => ?_
      refine (activate same.toReports (body hrec similar.body .nil) hf ?_).bind fun result => ?_
      · exact similar.arguments values
      · exact pure _

theorem loopFor (same : Context.Reports R cx cx') {x : ν} {y : μ} (hx : R.names x y)
    {first last : Expr ν} {first' last' : Expr μ} {stmts : List (Expr ν)} {stmts' : List (Expr μ)}
    (hfirst : Expr.Similar R.names .value first first')
    (hlast : Expr.Similar R.names .value last last')
    (h : List.Forall₂ (Expr.Similar R.names .statement) stmts stmts') (budget : Nat) :
    SimulatedBy (State.Corresponds R) (Eval.loopFor cx rec budget x first last stmts)
      fun n => Eval.loopFor cx' (rec' n) n y first' last' stmts' := by
  refine (hrec _ _ hfirst).bind fun v => (hrec _ _ hlast).bind fun w => ?_
  refine (ofExcept same _).bind fun start => (ofExcept same _).bind fun stop => ?_
  exact ((body hrec h .nil).forRange hx same stop budget 0 start).inNewScope

theorem dotimes (same : Context.Reports R cx cx') {x : ν} {y : μ} (hx : R.names x y)
    {count : Expr ν} {count' : Expr μ} {stmts : List (Expr ν)} {stmts' : List (Expr μ)}
    (hcount : Expr.Similar R.names .value count count')
    (h : List.Forall₂ (Expr.Similar R.names .statement) stmts stmts') :
    SimulatedBy (State.Corresponds R) (Eval.dotimes cx rec x count stmts)
      fun n => Eval.dotimes cx' (rec' n) y count' stmts' := by
  refine (hrec _ _ hcount).bind fun v => (ofExcept same _).bind fun n => ?_
  exact ((body hrec h .nil).times hx _ 0).inNewScope

end Parts

section Updates

variable (same : Context.Reports R cx cx')

include same

theorem update (op : UpdateOp) {place : Place ν} {place' : Place μ}
    (h : Place.Corresponds R place place') (v : Value) :
    SimulatedBy (State.Corresponds R) (Eval.update cx op place v)
      fun _ => Eval.update cx' op place' v := by
  cases op with
  | setf => exact writePlace same h v
  | move direction =>
      refine (readPlace same h).bind fun current => (ofExcept same _).bind fun n => ?_
      refine (ofExcept same _).bind fun amount => ?_
      split
      · exact writePlace same h _
      · exact fail same _

theorem bindName (op : BindOp) {x : ν} {y : μ} (hx : R.names x y) (v : Value) :
    SimulatedBy (State.Corresponds R) (Eval.bindName cx op x v)
      fun _ => Eval.bindName cx' op y v := by
  cases op with
  | defvar => exact (define hx v).bind fun _ => pure v
  | setq => exact (assign same hx v).bind fun _ => pure v

end Updates

end Run.SimulatedBy

open Run.SimulatedBy in
/-- Where an evaluation ends, the evaluation of a similar expression ends in the same way with all
large enough fuels: the induction is on the fuel, and for each fuel on the similarity, since a return
on the other side takes fuel there only. -/
theorem simulatedBy_eval {R : Correspondence ν μ} {cx : Context ν} {cx' : Context μ}
    (same : Context.Similar R cx cx') (fuel : Nat) {e : Expr ν} {d : Expr μ}
    (h : Expr.Similar R.names .value e d) :
    Run.SimulatedBy (State.Corresponds R) (eval cx fuel e) fun n => eval cx' n d := by
  have reports := same.toReports
  induction fuel generalizing e d with
  | zero => exact exhausted
  | succ fuel ih =>
      generalize standing : Position.value = p at h
      induction h with
      | retLeft inner _ => exact ih inner
      | retRight _ inner =>
          -- this return takes fuel on the other side only, so the expression is the same still
          exact of_shift (inner standing)
      | plain _ _ _ _ => cases standing
      | returned _ _ => cases standing
      | literal v => exact of_shift (pure (Value.scalar v))
      | var hx => exact of_shift (readPlace reports (.var hx))
      | element hx hi _ =>
          exact of_shift ((index (fun _ _ => ih) reports hi).bind fun i =>
            readPlace reports (.element hx i))
      | unary op he _ => exact of_shift ((ih he).bind fun v => unary reports op v)
      | binary op hl hr _ _ =>
          exact of_shift ((ih hl).bind fun a => (ih hr).bind fun b => ofExcept reports _)
      | variadic op length parts _ =>
          refine of_shift ((all (fun _ _ => ih) ?_).bind fun vs => ofExcept reports _)
          exact List.forall₂_iff_get.2 ⟨length, parts⟩
      | bind op hx he _ => exact of_shift ((ih he).bind fun v => bindName reports op hx v)
      | update op hx he _ =>
          exact of_shift ((ih he).bind fun v => update reports op (.var hx) v)
      | updateElement op hx hi he _ _ =>
          refine of_shift ((ih he).bind fun v => ?_)
          exact (index (fun _ _ => ih) reports hi).bind fun i => update reports op (.element hx i) v
      | ifThen hc ha _ _ =>
          cases standing
          refine of_shift ((ih hc).bind fun v => ?_)
          split
          · exact ih ha
          · exact pure Value.nil
      | ifElse hc ha hb _ _ _ =>
          cases standing
          refine of_shift ((ih hc).bind fun v => ?_)
          split
          · exact ih ha
          · exact ih hb
      | loop length parts _ =>
          have stmts := List.forall₂_iff_get.2 ⟨length, parts⟩
          exact of_shift ((body (fun _ _ => ih) stmts .nil).forever fuel 0)
      | loopFor hx ha hb length parts _ _ _ =>
          have stmts := List.forall₂_iff_get.2 ⟨length, parts⟩
          exact of_shift (loopFor (fun _ _ => ih) reports hx ha hb stmts fuel)
      | dotimes hx hc length parts _ _ =>
          have stmts := List.forall₂_iff_get.2 ⟨length, parts⟩
          exact of_shift (dotimes (fun _ _ => ih) reports hx hc stmts)
      | call hf length parts _ =>
          have args := List.forall₂_iff_get.2 ⟨length, parts⟩
          exact of_shift (call (fun _ _ => ih) same hf args)

omit [DecidableEq ν] [DecidableEq μ] in
/-- If every evaluation of a family is followed, what it converges to is followed. -/
theorem Interpreter.converges_of_simulatedBy {a : Interpreter ν} {b : Interpreter μ} {scope : Nat}
    {x : Nat → Eval ν α} {y : Nat → Eval μ α} {S : State ν → State μ → Prop}
    {T : Interpreter ν → Interpreter μ → Prop} (h : ∀ n, Run.SimulatedBy S (x n) y)
    (start : S (a.load scope) (b.load scope))
    (saved : ∀ n m s t, (x n (a.load scope)).after? = some s → (y m (b.load scope)).after? = some t →
      S s t → T (a.save scope s) (b.save scope t))
    {out : Outcome (Interpreter ν) EvalError α}
    (converges : Outcome.Converges (fun n => a.run scope (x n)) out) :
    ∃ out', Outcome.Converges (fun n => b.run scope (y n)) out' ∧ Outcome.Matches T out out' := by
  obtain ⟨ended, n, rfl⟩ := converges
  obtain ⟨reached, matched, late⟩ := h n _ _ start (mt Interpreter.run_eq_exhausted.2 ended)
  obtain ⟨m, hy⟩ : ∃ m, y m (b.load scope) = reached := late.exists
  have saved := saved n m
  have both : Outcome.Matches T (a.run scope (x n)) (b.run scope (y m)) := by
    rw [hy] at saved
    unfold Interpreter.run
    rw [hy]
    generalize x n (a.load scope) = first at matched saved
    cases matched with
    | value after => exact .value (saved _ _ rfl rfl after)
    | error after => exact .error (saved _ _ rfl rfl after)
  exact ⟨_, ⟨both.ne_exhausted, m, rfl⟩, both⟩

end MiniLisp
