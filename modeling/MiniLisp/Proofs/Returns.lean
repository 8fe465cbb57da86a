import MiniLisp.Proofs.Similarity

/-!
Returns that do nothing. A return ends a body only as one of its statements, or as a branch of an `if`
that is such a statement; every other return yields its operand to what is around it. Stripping takes
these returns away. Main statement: a program and its stripped form diverge together, or end together
in the same way (`Interpreter.eval_strip`).
-/

namespace MiniLisp

variable {ν : Type}

mutual

/-- Takes the returns away that do not end a body. -/
def Expr.strip (p : Position) : Expr ν → Expr ν
  | .literal v => .literal v
  | .var x => .var x
  | .element x index => .element x (index.strip .value)
  | .unary op operand => .unary op (operand.strip .value)
  | .binary op left right => .binary op (left.strip .value) (right.strip .value)
  | .variadic op operands => .variadic op (Expr.stripAll .value operands)
  | .bind op x value => .bind op x (value.strip .value)
  | .update op x value => .update op x (value.strip .value)
  | .updateElement op x index value =>
      .updateElement op x (index.strip .value) (value.strip .value)
  | .ifThen cond yes => .ifThen (cond.strip .value) (yes.strip p)
  | .ifElse cond yes no => .ifElse (cond.strip .value) (yes.strip p) (no.strip p)
  | .loop body => .loop (Expr.stripAll .statement body)
  | .loopFor x first last body =>
      .loopFor x (first.strip .value) (last.strip .value) (Expr.stripAll .statement body)
  | .dotimes x count body => .dotimes x (count.strip .value) (Expr.stripAll .statement body)
  | .call f args => .call f (Expr.stripAll .value args)
  | .ret value =>
      match p with
      | .value => value.strip .value
      | .statement => .ret (value.strip .value)

def Expr.stripAll (p : Position) : List (Expr ν) → List (Expr ν)
  | [] => []
  | e :: rest => e.strip p :: Expr.stripAll p rest

end

/-- Strips the statements of the body. -/
def FunctionDef.strip (fn : FunctionDef ν) : FunctionDef ν :=
  { fn with body := Expr.stripAll .statement fn.body }

def FunctionTable.strip (functions : FunctionTable ν) : FunctionTable ν :=
  { functions with definitions := functions.definitions.map fun d => { d with fn := d.fn.strip } }

/-- The interpreter with all its functions stripped. -/
def Interpreter.strip (interp : Interpreter ν) : Interpreter ν :=
  { interp with functions := interp.functions.strip }

/-- Of two returns around a branch the outer one ends the body, the inner one does nothing. -/
example (x : ν) :
    (Expr.loop [.ifThen (.ret (.var x)) (.ret (.ret (.var x)))]).strip .value =
      .loop [.ifThen (.var x) (.ret (.var x))] := rfl

/-! ### Stripped programs are similar -/

mutual

theorem Expr.similar_strip (p : Position) : ∀ e : Expr ν, Expr.Similar Eq p e (e.strip p)
  | .literal v => .of_plain (.literal v) rfl rfl
  | .var _ => .of_plain (.var rfl) rfl rfl
  | .element _ index => .of_plain (.element rfl (index.similar_strip .value)) rfl rfl
  | .unary op operand => .of_plain (.unary op (operand.similar_strip .value)) rfl rfl
  | .binary op left right =>
      .of_plain (.binary op (left.similar_strip .value) (right.similar_strip .value)) rfl rfl
  | .variadic op operands => by
      have parts := Expr.similar_stripAll .value operands
      exact .of_plain (.variadic op parts.length_eq parts.get) rfl rfl
  | .bind op _ value => .of_plain (.bind op rfl (value.similar_strip .value)) rfl rfl
  | .update op _ value => .of_plain (.update op rfl (value.similar_strip .value)) rfl rfl
  | .updateElement op _ index value =>
      .of_plain (.updateElement op rfl (index.similar_strip .value) (value.similar_strip .value))
        rfl rfl
  | .ifThen cond yes => .ifThen (cond.similar_strip .value) (yes.similar_strip p)
  | .ifElse cond yes no =>
      .ifElse (cond.similar_strip .value) (yes.similar_strip p) (no.similar_strip p)
  | .loop body => by
      have stmts := Expr.similar_stripAll .statement body
      exact .of_plain (.loop stmts.length_eq stmts.get) rfl rfl
  | .loopFor _ first last body => by
      have stmts := Expr.similar_stripAll .statement body
      exact .of_plain (.loopFor rfl (first.similar_strip .value) (last.similar_strip .value)
        stmts.length_eq stmts.get) rfl rfl
  | .dotimes _ count body => by
      have stmts := Expr.similar_stripAll .statement body
      exact .of_plain (.dotimes rfl (count.similar_strip .value) stmts.length_eq stmts.get) rfl rfl
  | .call _ args => by
      have parts := Expr.similar_stripAll .value args
      exact .of_plain (.call rfl parts.length_eq parts.get) rfl rfl
  | .ret value => by
      have inside := value.similar_strip .value
      cases p with
      | value => exact .retLeft inside
      | statement => exact .returned inside

theorem Expr.similar_stripAll (p : Position) :
    ∀ es : List (Expr ν), List.Forall₂ (Expr.Similar Eq p) es (Expr.stripAll p es)
  | [] => .nil
  | e :: rest => .cons (e.similar_strip p) (Expr.similar_stripAll p rest)

end

theorem FunctionDef.similar_strip (fn : FunctionDef ν) : FunctionDef.Similar Eq fn fn.strip where
  name := rfl
  params := List.forall₂_eq_eq_eq ▸ rfl
  body := Expr.similar_stripAll .statement fn.body

theorem FunctionDef.Similar.symm {fn fn' : FunctionDef ν} (h : FunctionDef.Similar Eq fn fn') :
    FunctionDef.Similar Eq fn' fn where
  name := h.name.symm
  params := h.params.flip.imp fun _ _ => Eq.symm
  body := h.body.flip.imp fun _ _ similar => similar.symm fun _ _ => Eq.symm

variable [DecidableEq ν]

theorem FunctionTable.similar_strip (functions : FunctionTable ν) :
    FunctionTable.Similar Eq functions functions.strip := by
  rintro f _ rfl
  have stripped : functions.strip.get? f =
      (functions.get? f).map fun d => { d with fn := d.fn.strip } := Dictionary.get?_map _ _ f
  rw [stripped]
  cases functions.get? f with
  | none => exact .none
  | some found => exact .some found.fn.similar_strip

theorem FunctionTable.Similar.symm {functions functions' : FunctionTable ν}
    (h : FunctionTable.Similar Eq functions functions') :
    FunctionTable.Similar Eq functions' functions := by
  rintro f _ rfl
  have known := h f f rfl
  generalize functions.get? f = found, functions'.get? f = found' at known
  cases known with
  | none => exact .none
  | some similar => exact .some similar.symm

/-! ### Both programs -/

/-- Names correspond to themselves, and bindings too. -/
def Correspondence.identity : Correspondence ν ν where
  names := Eq
  bindings := Eq
  empty := rfl
  get?_eq := by
    rintro b _ x _ rfl rfl
    rfl
  set := by
    rintro b _ x _ rfl rfl v
    rfl

theorem Chain.corresponds_self (c : Chain ν) : Chain.Corresponds .identity c c := by
  induction c with
  | root b => exact .root rfl
  | child b parent ih => exact .child rfl ih

theorem Chain.Corresponds.eq {c d : Chain ν} (h : Chain.Corresponds .identity c d) : d = c := by
  induction h with
  | root same => rw [same]
  | child same _ ih => rw [same, ih]

namespace Interpreter

/-- The second interpreter has the same scopes, active calls and printed lines, under the same limit. -/
structure Mirrors (a b : Interpreter ν) : Prop where
  store : b.store = a.store
  frames : b.stack.frames = a.stack.frames
  limit : b.stack.limit = a.stack.limit
  printer : b.printer = a.printer

omit [DecidableEq ν] in
theorem Mirrors.flip {a b : Interpreter ν} (h : Mirrors a b) : Mirrors b a :=
  ⟨h.store.symm, h.frames.symm, h.limit.symm, h.printer.symm⟩

variable {a b : Interpreter ν} {scope : Nat}

theorem Mirrors.load (h : Mirrors a b) :
    State.Corresponds .identity (a.load scope) (b.load scope) where
  scopes := by
    unfold Interpreter.load
    rw [h.store]
    exact Chain.corresponds_self _
  frames := List.forall₂_eq_eq_eq ▸ h.frames.symm
  limit := h.limit
  printer := h.printer

theorem Mirrors.save (h : Mirrors a b) {s t : State ν} (after : State.Corresponds .identity s t) :
    Mirrors (a.save scope s) (b.save scope t) where
  store := by
    show b.store.commit scope t.scopes = a.store.commit scope s.scopes
    rw [h.store, after.scopes.eq]
  frames := (List.forall₂_eq_eq_eq ▸ after.frames : s.stack.frames = t.stack.frames).symm
  limit := after.limit
  printer := after.printer

/-- Similar expressions end in the same way over similar functions. -/
theorem converges_of_similar (label : ν → String) (mirrors : Mirrors a b)
    (functions : FunctionTable.Similar Eq a.functions b.functions) {e d : Expr ν}
    (similar : Expr.Similar Eq .value e d) {out : Outcome (Interpreter ν) EvalError Value}
    (converges : Outcome.Converges (a.eval label · scope e) out) :
    ∃ out', Outcome.Converges (b.eval label · scope d) out' ∧ Outcome.Matches Mirrors out out' := by
  have same : Context.Similar .identity (a.context label) (b.context label) := by
    refine ⟨⟨?_, rfl⟩, functions⟩
    rintro x _ rfl
    rfl
  exact converges_of_simulatedBy (fun fuel => simulatedBy_eval same fuel similar) mirrors.load
    (fun _ _ _ _ _ _ after => mirrors.save after) converges

/-- Taking away all returns that do not end a body, in an expression and in the functions, changes
nothing: both programs diverge, or both end with the same value or error, in the same scopes and with
the same printed lines. -/
theorem eval_strip (label : ν → String) (interp : Interpreter ν) (scope : Nat) (e : Expr ν) :
    (∃ out out', Outcome.Converges (interp.eval label · scope e) out ∧
      Outcome.Converges (interp.strip.eval label · scope (e.strip .value)) out' ∧
      Outcome.Matches Mirrors out out') ∨
    ((∀ out, ¬Outcome.Converges (interp.eval label · scope e) out) ∧
      ∀ out, ¬Outcome.Converges (interp.strip.eval label · scope (e.strip .value)) out) := by
  have mirrors : Mirrors interp interp.strip := ⟨rfl, rfl, rfl, rfl⟩
  have functions := interp.functions.similar_strip
  have similar := e.similar_strip .value
  by_cases ends : ∃ out, Outcome.Converges (interp.eval label · scope e) out
  · obtain ⟨out, converges⟩ := ends
    obtain ⟨out', converges', matched⟩ :=
      converges_of_similar label mirrors functions similar converges
    exact .inl ⟨out, out', converges, converges', matched⟩
  · refine .inr ⟨fun out converges => ends ⟨out, converges⟩, fun out converges => ends ?_⟩
    obtain ⟨out', converges', -⟩ := converges_of_similar label mirrors.flip functions.symm
      (similar.symm fun _ _ => Eq.symm) converges
    exact ⟨out', converges'⟩

end Interpreter

end MiniLisp
