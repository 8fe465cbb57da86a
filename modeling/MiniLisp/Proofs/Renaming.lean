import MiniLisp.Proofs.Building
import MiniLisp.Proofs.Execution
import MiniLisp.Proofs.Locality
import MiniLisp.Proofs.Similarity

/-!
Names are only names. Forms that are built alike over corresponding names are executed alike, one after
another (`Interpreter.Corresponds.executes`), and a program that is built with two interners is built
alike over the names of the same strings (`Interner.similar_forms`). So what was interned before makes no
difference to what a program does (`Interpreter.executes_with_any_interner`).
-/

namespace MiniLisp

variable {κ ν μ : Type}

/-! ### Two replacements of names -/

section Replacement

/-- The own name of a node stands after the names of its parts. -/
theorem forall_mem_own {P : κ → Prop} {parts : List κ} {own : κ} :
    (∀ x ∈ parts ++ [own], P x) ↔ (∀ x ∈ parts, P x) ∧ P own := by
  rw [List.forall_mem_append, List.forall_mem_singleton]

variable {f : κ → ν} {g : κ → μ} {N : ν → μ → Prop}

mutual

/-- Replacing names in two ways gives similar expressions if the replacements correspond. -/
theorem Expr.similar_map (p : Position) : ∀ e : Expr κ, (∀ x ∈ e.names, N (f x) (g x)) →
    Expr.Similar N p (e.map f) (e.map g)
  | .literal v, _ => .of_plain (.literal v) rfl rfl
  | .var x, h => .of_plain (.var (h x List.mem_cons_self)) rfl rfl
  | .element x index, h => by
      obtain ⟨hi, hx⟩ := forall_mem_own.1 h
      exact .of_plain (.element hx (index.similar_map .value hi)) rfl rfl
  | .unary op operand, h => .of_plain (.unary op (operand.similar_map .value h)) rfl rfl
  | .binary op left right, h => by
      obtain ⟨hl, hr⟩ := List.forall_mem_append.1 h
      exact .of_plain (.binary op (left.similar_map .value hl) (right.similar_map .value hr)) rfl rfl
  | .variadic op operands, h => by
      have parts := Expr.similar_mapAll .value operands h
      exact .of_plain (.variadic op parts.length_eq parts.get) rfl rfl
  | .bind op x value, h => by
      obtain ⟨hv, hx⟩ := forall_mem_own.1 h
      exact .of_plain (.bind op hx (value.similar_map .value hv)) rfl rfl
  | .update op x value, h => by
      obtain ⟨hx, hv⟩ := List.forall_mem_cons.1 h
      exact .of_plain (.update op hx (value.similar_map .value hv)) rfl rfl
  | .updateElement op x index value, h => by
      obtain ⟨place, hv⟩ := List.forall_mem_append.1 h
      obtain ⟨hi, hx⟩ := forall_mem_own.1 place
      exact .of_plain (.updateElement op hx (index.similar_map .value hi)
        (value.similar_map .value hv)) rfl rfl
  | .ifThen cond yes, h => by
      obtain ⟨hc, hy⟩ := List.forall_mem_append.1 h
      exact .ifThen (cond.similar_map .value hc) (yes.similar_map p hy)
  | .ifElse cond yes no, h => by
      obtain ⟨both, hn⟩ := List.forall_mem_append.1 h
      obtain ⟨hc, hy⟩ := List.forall_mem_append.1 both
      exact .ifElse (cond.similar_map .value hc) (yes.similar_map p hy) (no.similar_map p hn)
  | .loop body, h => by
      have stmts := Expr.similar_mapAll .statement body h
      exact .of_plain (.loop stmts.length_eq stmts.get) rfl rfl
  | .loopFor x first last body, h => by
      obtain ⟨parts, hx⟩ := forall_mem_own.1 h
      obtain ⟨both, hs⟩ := List.forall_mem_append.1 parts
      obtain ⟨hf, hl⟩ := List.forall_mem_append.1 both
      have stmts := Expr.similar_mapAll .statement body hs
      exact .of_plain (.loopFor hx (first.similar_map .value hf) (last.similar_map .value hl)
        stmts.length_eq stmts.get) rfl rfl
  | .dotimes x count body, h => by
      obtain ⟨parts, hx⟩ := forall_mem_own.1 h
      obtain ⟨hc, hs⟩ := List.forall_mem_append.1 parts
      have stmts := Expr.similar_mapAll .statement body hs
      exact .of_plain (.dotimes hx (count.similar_map .value hc) stmts.length_eq stmts.get) rfl rfl
  | .call _ args, h => by
      obtain ⟨ha, hf⟩ := forall_mem_own.1 h
      have parts := Expr.similar_mapAll .value args ha
      exact .of_plain (.call hf parts.length_eq parts.get) rfl rfl
  | .ret value, h => by
      have inside := value.similar_map .value h
      cases p with
      | value => exact .retLeft (.retRight inside)
      | statement => exact .returned inside

theorem Expr.similar_mapAll (p : Position) : ∀ es : List (Expr κ),
    (∀ x ∈ Expr.namesAll es, N (f x) (g x)) →
      List.Forall₂ (Expr.Similar N p) (Expr.mapAll f es) (Expr.mapAll g es)
  | [], _ => .nil
  | e :: rest, h => by
      obtain ⟨he, hr⟩ := List.forall_mem_append.1 h
      exact .cons (e.similar_map p he) (Expr.similar_mapAll p rest hr)

end

theorem FunctionDef.similar_map (fn : FunctionDef κ) (h : ∀ x ∈ fn.names, N (f x) (g x)) :
    FunctionDef.Similar N (fn.map f) (fn.map g) := by
  obtain ⟨own, params⟩ := List.forall_mem_append.1 h
  obtain ⟨body, name⟩ := forall_mem_own.1 own
  refine ⟨name, ?_, Expr.similar_mapAll .statement fn.body body⟩
  show List.Forall₂ N (fn.params.map f) (fn.params.map g)
  rw [List.forall₂_map_left_iff, List.forall₂_map_right_iff]
  exact List.forall₂_same.2 params

/-- Forms of one kind with similar contents. -/
inductive Form.Similar (N : ν → μ → Prop) : Form ν → Form μ → Prop
  | expr {e d} : Expr.Similar N .value e d → Similar N (.expr e) (.expr d)
  | function {fn fn'} : FunctionDef.Similar N fn fn' → Similar N (.function fn) (.function fn')

theorem Form.similar_map (form : Form κ) (h : ∀ x ∈ form.names, N (f x) (g x)) :
    Form.Similar N (form.map f) (form.map g) := by
  cases form with
  | expr e => exact .expr (e.similar_map .value h)
  | function fn => exact .function (fn.similar_map h)

end Replacement

/-! ### Executing similar forms -/

variable [DecidableEq ν] [DecidableEq μ] {R : Correspondence ν μ}

theorem FunctionTable.Similar.define {functions : FunctionTable ν} {functions' : FunctionTable μ}
    (h : Similar R.names functions functions') {fn : FunctionDef ν} {fn' : FunctionDef μ}
    (hfn : FunctionDef.Similar R.names fn fn') :
    Similar R.names (functions.define fn).2 (functions'.define fn').2 := by
  intro f g hf
  rw [get?_define, get?_define]
  have same := R.eq_iff hfn.name hf
  by_cases own : fn.name = f
  · rw [if_pos own, if_pos (same.1 own)]
    exact .some hfn
  · rw [if_neg own, if_neg (mt same.2 own)]
    exact h f g hf

namespace Interpreter

variable (R) in
/-- Corresponding states in the root, and similar functions. -/
structure Corresponds (a : Interpreter ν) (b : Interpreter μ) : Prop where
  exists_left : root < a.store.size
  exists_right : root < b.store.size
  state : State.Corresponds R (a.load root) (b.load root)
  functions : FunctionTable.Similar R.names a.functions b.functions

namespace Corresponds

variable {a : Interpreter ν} {b : Interpreter μ} {label : ν → String} {label' : μ → String}

theorem new (limit : Option Nat) (printer : Printer) :
    Corresponds R (new limit printer) (new limit printer) where
  exists_left := Nat.zero_lt_one
  exists_right := Nat.zero_lt_one
  state := by
    refine ⟨?_, .nil, rfl, rfl⟩
    show Chain.Corresponds R (Store.new.view 0) (Store.new.view 0)
    rw [Store.view_of_root _ rfl, Store.view_of_root _ rfl]
    exact .root R.empty
  functions _ _ _ := .none

variable (h : Corresponds R a b) (labels : ∀ x y, R.names x y → label' y = label x)

include h labels

theorem eval {e : Expr ν} {d : Expr μ} (similar : Expr.Similar R.names .value e d)
    {out : Outcome (Interpreter ν) EvalError Value}
    (converges : Outcome.Converges (a.eval label · root e) out) :
    ∃ out', Outcome.Converges (b.eval label' · root d) out' ∧
      Outcome.Matches (Corresponds R) out out' := by
  have same : Context.Similar R (a.context label) (b.context label') :=
    ⟨⟨labels, rfl⟩, h.functions⟩
  refine converges_of_simulatedBy (fun fuel => simulatedBy_eval same fuel similar) h.state
    (fun n m s t hs ht after => ?_) converges
  refine ⟨?_, ?_, ⟨?_, after.frames, after.limit, after.printer⟩, h.functions⟩
  · exact (a.store.size_commit root s.scopes).symm ▸ h.exists_left
  · exact (b.store.size_commit root t.scopes).symm ▸ h.exists_right
  · show Chain.Corresponds R ((a.store.commit root s.scopes).view root)
      ((b.store.commit root t.scopes).view root)
    rw [view_commit_eval a h.exists_left _ n e hs, view_commit_eval b h.exists_right _ m d ht]
    exact after.scopes

theorem execute {form : Form ν} {form' : Form μ} (similar : Form.Similar R.names form form')
    {out : Outcome (Interpreter ν) EvalError (Option Value)}
    (converges : Outcome.Converges (a.execute label · form) out) :
    ∃ out', Outcome.Converges (b.execute label' · form') out' ∧
      Outcome.Matches (Corresponds R) out out' := by
  cases similar with
  | @expr e d similar =>
      simp only [execute_expr] at converges ⊢
      obtain ⟨first, firstConverges, rfl⟩ := Outcome.converges_map.1 converges
      obtain ⟨first', firstConverges', matched⟩ := h.eval labels similar firstConverges
      exact ⟨_, Outcome.converges_map.2 ⟨first', firstConverges', rfl⟩, matched.map some⟩
  | @function fn fn' similar =>
      obtain ⟨-, fuel, rfl⟩ := converges
      have after : Corresponds R { a with functions := (a.functions.define fn).2 }
          { b with functions := (b.functions.define fn').2 } :=
        ⟨h.exists_left, h.exists_right, ⟨h.state.scopes, h.state.frames, h.state.limit,
          h.state.printer⟩, h.functions.define similar⟩
      have matched : Outcome.Matches (Corresponds R) (a.execute label fuel (.function fn))
          (b.execute label' fuel (.function fn')) := .value after
      exact ⟨_, ⟨matched.ne_exhausted, fuel, rfl⟩, matched⟩

omit h in
/-- Similar forms are executed alike one after another, as far as the executions come to an end. -/
theorem executes {forms : List (Form ν)} {forms' : List (Form μ)}
    (similar : List.Forall₂ (Form.Similar R.names) forms forms') (h : Corresponds R a b)
    {outs : List (Outcome (Interpreter ν) EvalError (Option Value))}
    (executes : Executes label a forms outs) :
    ∃ outs', Executes label' b forms' outs' ∧
      List.Forall₂ (Outcome.Matches (Corresponds R)) outs outs' := by
  induction executes generalizing b forms' with
  | stop a forms => exact ⟨[], .stop b forms', .nil⟩
  | form converges ended _ ih =>
      cases similar with
      | cons first others =>
          obtain ⟨out', converges', matched⟩ := h.execute labels first converges
          obtain ⟨after', ended', after⟩ := matched.after? ended
          obtain ⟨outs', executes', rest⟩ := ih others after
          exact ⟨out' :: outs', .form converges' ended' executes', .cons matched rest⟩

end Corresponds

end Interpreter

/-! ### Names of the same strings -/

/-- The names that are paired have the same values, and no other names have any. -/
structure Bindings.Paired (N : ν → μ → Prop) (b : Bindings ν) (d : Bindings μ) : Prop where
  get?_eq : ∀ x y, N x y → d.get? y = b.get? x
  left : ∀ x v, b.get? x = some v → ∃ y, N x y
  right : ∀ y v, d.get? y = some v → ∃ x, N x y

/-- Names that are paired one to one correspond. -/
def Correspondence.ofPairs (N : ν → μ → Prop)
    (unique : ∀ x y x' y', N x y → N x' y' → (x = x' ↔ y = y')) : Correspondence ν μ where
  names := N
  bindings := Bindings.Paired N
  empty := ⟨fun _ _ _ => rfl, nofun, nofun⟩
  get?_eq h hx := h.get?_eq _ _ hx
  set := by
    intro b d x y h hx v
    refine ⟨fun x' y' hx' => ?_, fun x' w bound => ?_, fun y' w bound => ?_⟩
    · have same := unique x y x' y' hx hx'
      rw [Dictionary.get?_set, Dictionary.get?_set]
      by_cases own : x = x'
      · rw [if_pos own, if_pos (same.1 own)]
      · rw [if_neg own, if_neg (mt same.2 own), h.get?_eq x' y' hx']
    · rw [Dictionary.get?_set] at bound
      split at bound
      · next own => exact ⟨y, own ▸ hx⟩
      · exact h.left x' w bound
    · rw [Dictionary.get?_set] at bound
      split at bound
      · next own => exact ⟨x, own ▸ hx⟩
      · exact h.right y' w bound

theorem Bindings.Paired.get?_left {N : ν → μ → Prop} {b : Bindings ν} {d : Bindings μ}
    (h : Paired N b d) {x : ν} (alone : ∀ y, ¬N x y) : b.get? x = none := by
  cases bound : b.get? x with
  | none => rfl
  | some v =>
      obtain ⟨y, hy⟩ := h.left x v bound
      exact absurd hy (alone y)

theorem Bindings.Paired.get?_right {N : ν → μ → Prop} {b : Bindings ν} {d : Bindings μ}
    (h : Paired N b d) {y : μ} (alone : ∀ x, ¬N x y) : d.get? y = none := by
  cases bound : d.get? y with
  | none => rfl
  | some v =>
      obtain ⟨x, hx⟩ := h.right y v bound
      exact absurd hx (alone x)

namespace Chain.Corresponds

variable {N : ν → μ → Prop} {unique : ∀ x y x' y', N x y → N x' y' → (x = x' ↔ y = y')}
  {c : Chain ν} {d : Chain μ} (h : Chain.Corresponds (.ofPairs N unique) c d)

include h

/-- A name without a partner is not bound. -/
theorem lookup_left {x : ν} (alone : ∀ y, ¬N x y) : c.lookup x = none := by
  induction h with
  | root own => exact own.get?_left alone
  | child own _ ih => rw [Chain.lookup, own.get?_left alone, ih]

theorem lookup_right {y : μ} (alone : ∀ x, ¬N x y) : d.lookup y = none := by
  induction h with
  | root own => exact own.get?_right alone
  | child own _ ih => rw [Chain.lookup, own.get?_right alone, ih]

end Chain.Corresponds

namespace Interner

variable {a b : Interner} {s : String}

variable (a b) in
/-- The names are those of one string that both interners know. -/
def SameString (x y : Name) : Prop := ∃ s, a.index.get? s = some x ∧ b.index.get? s = some y

theorem SameString.unique (ha : a.Consistent) (hb : b.Consistent) (x y x' y' : Name)
    (h : SameString a b x y) (h' : SameString a b x' y') : x = x' ↔ y = y' := by
  obtain ⟨s, hx, hy⟩ := h
  obtain ⟨s', hx', hy'⟩ := h'
  constructor
  · rintro rfl
    obtain rfl := ha.eq_of_index hx hx'
    exact Option.some.inj (hy.symm.trans hy')
  · rintro rfl
    obtain rfl := hb.eq_of_index hy hy'
    exact Option.some.inj (hx.symm.trans hx')

/-- A name that has a partner is known, and its partner is the other name of its string. -/
theorem sameString_of_left (ha : a.Consistent) {y : Name} (h : SameString a b (a.nameOf s) y) :
    SameString a b (a.nameOf s) (b.nameOf s) := by
  obtain ⟨s', hx, hy⟩ := h
  cases known : a.index.get? s with
  | none => exact absurd hx (ha.nameOf_of_unknown known)
  | some x =>
      obtain rfl := nameOf_of_index known
      obtain rfl := ha.eq_of_index hx known
      exact ⟨s', hx, nameOf_of_index hy ▸ hy⟩

theorem SameString.flip {x y : Name} (h : SameString a b x y) : SameString b a y x := by
  obtain ⟨s, hx, hy⟩ := h
  exact ⟨s, hy, hx⟩

theorem lookup_of_sameString (ha : a.Consistent) (hb : b.Consistent) (x y : Name)
    (h : SameString a b x y) : b.lookup y = a.lookup x := by
  obtain ⟨s, hx, hy⟩ := h
  rw [ha.lookup_of_index hx, hb.lookup_of_index hy]

/-- A program is built alike with any two interners, over the names of the same strings. -/
theorem similar_forms (a b : Interner) (program : List (Form String)) :
    List.Forall₂ (Form.Similar (SameString (a.forms program).2 (b.forms program).2))
      (a.forms program).1 (b.forms program).1 := by
  rw [forms_eq a, forms_eq b, List.forall₂_map_left_iff, List.forall₂_map_right_iff,
    List.forall₂_same]
  intro form mem
  exact form.similar_map fun s hs => ⟨s, a.knows_forms mem hs, b.knows_forms mem hs⟩

/-- Both interpreters have printed the same, and every string means the same to them in the root. -/
structure ShowAlike (a b : Interner) (interp interp' : Interpreter Name) : Prop where
  printer : interp'.printer = interp.printer
  lookup : ∀ s, interp'.lookup Interpreter.root (b.nameOf s) =
    interp.lookup Interpreter.root (a.nameOf s)

theorem showAlike_of_corresponds (ha : a.Consistent) (hb : b.Consistent)
    {interp interp' : Interpreter Name}
    (h : Interpreter.Corresponds (.ofPairs _ (SameString.unique ha hb)) interp interp') :
    ShowAlike a b interp interp' := by
  refine ⟨h.state.printer, fun s => ?_⟩
  have scopes := h.state.scopes
  -- a string that one of the interners does not know is bound on neither side
  by_cases paired : SameString a b (a.nameOf s) (b.nameOf s)
  · exact scopes.lookup_eq paired
  · have left := scopes.lookup_left (x := a.nameOf s) fun y hy => paired (sameString_of_left ha hy)
    have right := scopes.lookup_right (y := b.nameOf s) fun x hx =>
      paired (sameString_of_left hb hx.flip).flip
    exact right.trans left.symm

end Interner

namespace Interpreter

open Interner in
/-- What was interned before a program is built makes no difference to it: its forms end with the same
values and errors, one after another, and leave the same printed lines and the same values of all
strings behind. -/
theorem executes_with_any_interner (limit : Option Nat) (printer : Printer) (before before' : List String)
    (program : List WrittenForm) :
    let built := Builder.all WrittenForm.build program (Interner.new.internAll before)
    let built' := Builder.all WrittenForm.build program (Interner.new.internAll before')
    ∀ {outs : List (Outcome (Interpreter Name) EvalError (Option Value))},
      Executes built.2.lookup (new limit printer) built.1 outs →
      ∃ outs', Executes built'.2.lookup (new limit printer) built'.1 outs' ∧
        List.Forall₂ (Outcome.Matches (ShowAlike built.2 built'.2)) outs outs' := by
  intro built built' outs executes
  obtain ⟨ha, hb, similar⟩ : ∃ (ha : built.2.Consistent) (hb : built'.2.Consistent),
      List.Forall₂ (Form.Similar (SameString built.2 built'.2)) built.1 built'.1 := by
    simp only [built, built', build_forms]
    exact ⟨(consistent_new.internAll before).forms _, (consistent_new.internAll before').forms _,
      similar_forms _ _ _⟩
  obtain ⟨outs', executes', matched⟩ := Corresponds.executes
    (R := .ofPairs _ (SameString.unique ha hb)) (lookup_of_sameString ha hb) similar
    (.new limit printer) executes
  refine ⟨outs', executes', matched.imp fun out out' same => ?_⟩
  exact same.mono fun _ _ => showAlike_of_corresponds ha hb

/-- A function reads a variable that there is not; with the second interner all its names are known
already, in another order. -/
theorem executes_with_any_interner_reordered :
    let program := [.function "f" ["x"] [.ident "y"], .expr (.call "f" [.literal .t])]
    let built := Builder.all WrittenForm.build program (Interner.new.internAll [])
    let built' := Builder.all WrittenForm.build program (Interner.new.internAll ["x", "z", "f", "y"])
    ∃ first second outs',
      second.failure? = some ⟨.undefinedVariable "y", some ⟨["f"]⟩⟩ ∧
      Executes built.2.lookup (new none .silent) built.1 [first, second] ∧
      Executes built'.2.lookup (new none .silent) built'.1 outs' ∧
      List.Forall₂ (Outcome.Matches (Interner.ShowAlike built.2 built'.2)) [first, second] outs' := by
  intro program built built'
  let first := (new none .silent).execute built.2.lookup 5 (.function ⟨⟨2⟩, [⟨3⟩], [.var ⟨1⟩]⟩)
  let second := (first.after?.get rfl).execute built.2.lookup 5 (.expr (.call ⟨2⟩ [.literal .t]))
  have fails : second.failure? = some ⟨.undefinedVariable "y", some ⟨["f"]⟩⟩ := by decide +kernel
  obtain ⟨after, ended⟩ := Outcome.failure?_eq_some.1 fails
  have reached : second.after? = some after := by
    rw [ended]
    rfl
  have executes : Executes built.2.lookup (new none .silent) built.1 [first, second] :=
    .form (.of_after? rfl) rfl (.form (.of_after? reached) reached (.stop after []))
  obtain ⟨outs', executes', matched⟩ :=
    executes_with_any_interner none .silent [] ["x", "z", "f", "y"] program executes
  exact ⟨first, second, outs', fails, executes, executes', matched⟩

end Interpreter

end MiniLisp
