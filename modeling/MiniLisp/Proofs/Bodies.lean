import Mathlib.Data.List.ReduceOption
import MiniLisp.Proofs.Convergence

/-!
Bodies beside plain evaluation. A body resolves the `if`s of a statement itself and only evaluates the
node that is left, but what becomes of the statement is what its evaluation as a whole makes of it
(`evaluates_iff`). So a body evaluates its statements in order, up to the first that fails or whose
branch path ends in a return; its value is that of the last statement whose path did not end in an
absent branch (`Eval.body_agrees`).
-/

namespace MiniLisp

variable {ν : Type}

/-- The expression that is evaluated for a node at the end of a branch path. -/
def Expr.payload : Expr ν → Expr ν
  | .ret e => e
  | e => e

/-- What a body makes of the value of a statement whose branch path ended at this node. -/
def BodyResult.ofNode : Option (Expr ν) → Value → Option BodyResult
  | none, _ => none
  | some (.ret _), v => some (.returned v)
  | some _, v => some (.completed v)

theorem BodyResult.ofNode_of_ne {live : Expr ν} (h : ∀ e, live ≠ .ret e) (v : Value) :
    ofNode (some live) v = some (.completed v) := by
  cases live with
  | ret e => exact absurd rfl (h e)
  | _ => rfl

namespace Eval

/-- Executes a statement and tells at which node its branch path ended. -/
def located (rec : Expr ν → Eval ν Value) (stmt : Expr ν) : Eval ν (Option (Expr ν) × Value) := do
  match ← resolve rec stmt with
  | none => return (none, .nil)
  | some live => return (some live, ← rec live.payload)

variable (rec : Expr ν → Eval ν Value)

theorem statement_eq_located (stmt : Expr ν) :
    statement rec stmt = (located rec stmt >>= fun p => pure (BodyResult.ofNode p.1 p.2)) := by
  simp only [statement, located, bind_assoc]
  congr 1
  funext live
  cases live with
  | none => rfl
  | some live => cases live <;> simp [BodyResult.ofNode, Expr.payload]

theorem located_ifThen (cond yes : Expr ν) :
    located rec (.ifThen cond yes) =
      (rec cond >>= fun v => if v.isTrue then located rec yes else pure (none, .nil)) := by
  simp only [located, resolve, bind_assoc]
  congr 1
  funext v
  cases v.isTrue <;> rfl

theorem located_ifElse (cond yes no : Expr ν) :
    located rec (.ifElse cond yes no) =
      (rec cond >>= fun v => if v.isTrue then located rec yes else located rec no) := by
  simp only [located, resolve, bind_assoc]
  congr 1
  funext v
  cases v.isTrue <;> rfl

theorem located_of_node {stmt : Expr ν} (h : stmt.isConditional = false) :
    located rec stmt = (rec stmt.payload >>= fun v => pure (some stmt, v)) := by
  cases stmt with
  | ifThen cond yes => cases h
  | ifElse cond yes no => cases h
  | _ => rfl

end Eval

/-- Induction along branch paths: a statement is a node, or an `if` whose branches have the property. -/
theorem Expr.path_induction {motive : Expr ν → Prop}
    (node : ∀ stmt : Expr ν, stmt.isConditional = false → motive stmt)
    (ifThen : ∀ cond yes, motive yes → motive (.ifThen cond yes))
    (ifElse : ∀ cond yes no, motive yes → motive no → motive (.ifElse cond yes no)) :
    ∀ stmt, motive stmt
  | .ifThen cond yes => ifThen cond yes (path_induction node ifThen ifElse yes)
  | .ifElse cond yes no => ifElse cond yes no (path_induction node ifThen ifElse yes)
      (path_induction node ifThen ifElse no)
  | .literal _ | .var _ | .element _ _ | .unary _ _ | .binary _ _ _ | .variadic _ _ | .bind _ _ _
  | .update _ _ _ | .updateElement _ _ _ _ | .loop _ | .loopFor _ _ _ _ | .dotimes _ _ _
  | .call _ _ | .ret _ => node _ rfl

variable [DecidableEq ν]

/-- The branch path of a statement, followed from a state on, ends at a node, or at none if the last
`if` had no branch to choose. -/
def Selects (cx : Context ν) : Expr ν → State ν → Option (Expr ν) → Prop
  | .ifThen cond yes, s, live => ∃ v t, Evaluates cx cond s (.value v t) ∧
      if v.isTrue then Selects cx yes t live else live = none
  | .ifElse cond yes no, s, live => ∃ v t, Evaluates cx cond s (.value v t) ∧
      if v.isTrue then Selects cx yes t live else Selects cx no t live
  | stmt, _, live => live = some stmt

variable {cx : Context ν} {stmt : Expr ν} {s t : State ν}

theorem selects_node (h : stmt.isConditional = false) {live : Option (Expr ν)} :
    Selects cx stmt s live ↔ live = some stmt := by
  cases stmt with
  | ifThen cond yes => cases h
  | ifElse cond yes no => cases h
  | _ => rfl

/-- A branch path has one end at most. -/
theorem Selects.unique {live live' : Option (Expr ν)} (h : Selects cx stmt s live)
    (h' : Selects cx stmt s live') : live = live' := by
  induction stmt using Expr.path_induction generalizing s with
  | node stmt node => rw [(selects_node node).1 h, (selects_node node).1 h']
  | ifThen cond yes ih =>
      obtain ⟨v, t, chosen, goes⟩ := h
      obtain ⟨v', t', chosen', goes'⟩ := h'
      cases chosen.unique (stable_eval cx cond) chosen'
      split at goes
      · next truth =>
          rw [if_pos truth] at goes'
          exact ih goes goes'
      · next truth =>
          rw [if_neg truth] at goes'
          rw [goes, goes']
  | ifElse cond yes no ihYes ihNo =>
      obtain ⟨v, t, chosen, goes⟩ := h
      obtain ⟨v', t', chosen', goes'⟩ := h'
      cases chosen.unique (stable_eval cx cond) chosen'
      split at goes
      · next truth =>
          rw [if_pos truth] at goes'
          exact ihYes goes goes'
      · next truth =>
          rw [if_neg truth] at goes'
          exact ihNo goes goes'

theorem stable_located (cx : Context ν) (stmt : Expr ν) :
    Run.Stable fun n => Eval.located (eval cx n) stmt := by
  induction stmt using Expr.path_induction with
  | node stmt node =>
      simp only [Eval.located_of_node _ node]
      exact .bind (stable_eval cx stmt.payload) fun _ => .const _
  | ifThen cond yes ih =>
      simp only [Eval.located_ifThen]
      exact .bind (stable_eval cx cond) fun _ => .ite ih (.const _)
  | ifElse cond yes no ihYes ihNo =>
      simp only [Eval.located_ifElse]
      exact .bind (stable_eval cx cond) fun _ => .ite ihYes ihNo

theorem evaluates_ret {e : Expr ν} {out : Outcome (State ν) EvalError Value} :
    Evaluates cx (.ret e) s out ↔ Evaluates cx e s out := evaluates_step

theorem evaluates_payload (stmt : Expr ν) {out : Outcome (State ν) EvalError Value} :
    Evaluates cx stmt.payload s out ↔ Evaluates cx stmt s out := by
  cases stmt with
  | ret e => exact evaluates_ret.symm
  | _ => rfl

/-- Following the branch path first and evaluating what is left does what the evaluation of the whole
statement does. -/
theorem evaluates_iff {out : Outcome (State ν) EvalError Value} :
    Evaluates cx stmt s out ↔
      Run.Reaches (fun n => Eval.located (eval cx n) stmt >>= fun p => pure p.2) s out := by
  induction stmt using Expr.path_induction generalizing s out with
  | node stmt node =>
      simp only [Eval.located_of_node _ node, bind_assoc, pure_bind, bind_pure]
      exact (evaluates_payload stmt).symm
  | ifThen cond yes ih =>
      rw [evaluates_step]
      simp only [Eval.located_ifThen, bind_assoc]
      refine Run.reaches_bind_congr (stable_eval cx cond)
        (fun _ => .ite (stable_eval cx yes) (.const _))
        (fun _ => .bind (.ite (stable_located cx yes) (.const _)) fun _ => .const _) fun v t => ?_
      cases v.isTrue with
      | true => exact ih
      | false => rfl
  | ifElse cond yes no ihYes ihNo =>
      rw [evaluates_step]
      simp only [Eval.located_ifElse, bind_assoc]
      refine Run.reaches_bind_congr (stable_eval cx cond)
        (fun _ => .ite (stable_eval cx yes) (stable_eval cx no))
        (fun _ => .bind (.ite (stable_located cx yes) (stable_located cx no)) fun _ => .const _)
        fun v t => ?_
      cases v.isTrue with
      | true => exact ihYes
      | false => exact ihNo

/-- A choice that ends with a value has chosen. -/
theorem branch_of_ends {α : Type} {cond : Expr ν} {y z : Nat → Eval ν α} (hy : Run.Stable y)
    (hz : Run.Stable z) {a : α}
    (h : Run.Reaches (fun n => eval cx n cond >>= fun v => if v.isTrue then y n else z n) s (.value a t)) :
    ∃ v u, Evaluates cx cond s (.value v u) ∧
      if v.isTrue then Run.Reaches y u (.value a t) else Run.Reaches z u (.value a t) := by
  rcases (Run.reaches_bind (stable_eval cx cond) fun _ => .ite hy hz).1 h
    with ⟨v, u, chosen, goes⟩ | ⟨e, u, -, failed⟩
  · refine ⟨v, u, chosen, ?_⟩
    split
    · next truth => simpa only [if_pos truth] using goes
    · next truth => simpa only [if_neg truth] using goes
  · cases failed

/-- The node that is told is the end of the branch path. -/
theorem selects_of_located {live : Option (Expr ν)} {v : Value}
    (h : Run.Reaches (fun n => Eval.located (eval cx n) stmt) s (.value (live, v) t)) :
    Selects cx stmt s live ∧ (live = none → v = .nil) := by
  induction stmt using Expr.path_induction generalizing s with
  | node stmt node =>
      simp only [Eval.located_of_node _ node] at h
      obtain ⟨first, -, same⟩ := Run.reaches_map.1 h
      cases first with
      | value w u =>
          cases same
          exact ⟨(selects_node node).2 rfl, nofun⟩
      | error e u => cases same
      | exhausted => cases same
  | ifThen cond yes ih =>
      simp only [Eval.located_ifThen] at h
      obtain ⟨c, u, chosen, goes⟩ := branch_of_ends (stable_located cx yes) (.const _) h
      split at goes
      · next truth =>
          obtain ⟨path, absent⟩ := ih goes
          exact ⟨⟨c, u, chosen, by rwa [if_pos truth]⟩, absent⟩
      · next truth =>
          cases Run.reaches_pure.1 goes
          exact ⟨⟨c, _, chosen, by rw [if_neg truth]⟩, fun _ => rfl⟩
  | ifElse cond yes no ihYes ihNo =>
      simp only [Eval.located_ifElse] at h
      obtain ⟨c, u, chosen, goes⟩ := branch_of_ends (stable_located cx yes) (stable_located cx no) h
      split at goes
      · next truth =>
          obtain ⟨path, absent⟩ := ihYes goes
          exact ⟨⟨c, u, chosen, by rwa [if_pos truth]⟩, absent⟩
      · next truth =>
          obtain ⟨path, absent⟩ := ihNo goes
          exact ⟨⟨c, u, chosen, by rwa [if_neg truth]⟩, absent⟩

/-- A body goes on after a statement: the branch path of the statement ends in an absent branch, and
there is no value, or at a node that is not a return, and there is the value of the statement. -/
inductive Completes (cx : Context ν) (stmt : Expr ν) (s : State ν) : Option Value → State ν → Prop
  | skipped {t : State ν} : Evaluates cx stmt s (.value .nil t) → Selects cx stmt s none →
      Completes cx stmt s none t
  | ran {v : Value} {t : State ν} {live : Expr ν} : Evaluates cx stmt s (.value v t) →
      Selects cx stmt s (some live) → (∀ e, live ≠ .ret e) → Completes cx stmt s (some v) t

/-- A body is over after a statement: the branch path of the statement ends in a return, or the
statement fails. -/
inductive Finishes (cx : Context ν) (stmt : Expr ν) (s : State ν) :
    Outcome (State ν) EvalError BodyResult → Prop
  | returned {v : Value} {t : State ν} {e : Expr ν} : Evaluates cx stmt s (.value v t) →
      Selects cx stmt s (some (.ret e)) → Finishes cx stmt s (.value (.returned v) t)
  | failed {e : EvalError} {t : State ν} : Evaluates cx stmt s (.error e t) →
      Finishes cx stmt s (.error e t)

theorem located_of_selects {live : Option (Expr ν)} {v : Value}
    (h : Evaluates cx stmt s (.value v t)) (path : Selects cx stmt s live) :
    Run.Reaches (fun n => Eval.located (eval cx n) stmt) s (.value (live, v) t) := by
  obtain ⟨first, ends, same⟩ := Run.reaches_map.1 (evaluates_iff.1 h)
  cases first with
  | value p u =>
      cases same
      rw [path.unique (selects_of_located ends).1]
      exact ends
  | error e u => cases same
  | exhausted => cases same

theorem located_of_error {e : EvalError} (h : Evaluates cx stmt s (.error e t)) :
    Run.Reaches (fun n => Eval.located (eval cx n) stmt) s (.error e t) := by
  obtain ⟨first, ends, same⟩ := Run.reaches_map.1 (evaluates_iff.1 h)
  rw [Outcome.map_eq_error.1 same] at ends
  exact ends

/-- A statement that is followed to its end is one after which the body goes on, or is over. -/
theorem of_located {first : Outcome (State ν) EvalError (Option (Expr ν) × Value)}
    (h : Run.Reaches (fun n => Eval.located (eval cx n) stmt) s first) :
    (∃ v t, Completes cx stmt s v t ∧ first.map (fun p => BodyResult.ofNode p.1 p.2) =
      .value (v.map .completed) t ∧ first.map Prod.snd = .value (v.getD .nil) t) ∨
    ∃ out, Finishes cx stmt s out ∧ first.map (fun p => BodyResult.ofNode p.1 p.2) =
      out.map some ∧ first.map Prod.snd = out.map BodyResult.value := by
  have whole : Evaluates cx stmt s (first.map Prod.snd) :=
    evaluates_iff.2 (Run.reaches_map.2 ⟨first, h, rfl⟩)
  cases first with
  | value p t =>
      obtain ⟨live, v⟩ := p
      obtain ⟨path, absent⟩ := selects_of_located h
      cases live with
      | none =>
          -- Plain evaluation makes `NIL` of an absent branch, a body makes nothing of it.
          obtain rfl := absent rfl
          exact .inl ⟨none, t, .skipped whole path, rfl, rfl⟩
      | some live =>
          by_cases node : ∃ e, live = .ret e
          · obtain ⟨e, rfl⟩ := node
            exact .inr ⟨.value (.returned v) t, .returned whole path, rfl, rfl⟩
          · have node := not_exists.1 node
            refine .inl ⟨some v, t, .ran whole path node, ?_, rfl⟩
            exact congrArg (Outcome.value · t) (BodyResult.ofNode_of_ne node v)
  | error e t => exact .inr ⟨.error e t, .failed whole, rfl, rfl⟩
  | exhausted => exact absurd rfl h.1

theorem reaches_statement {out : Outcome (State ν) EvalError (Option BodyResult)} :
    Run.Reaches (fun n => Eval.statement (eval cx n) stmt) s out ↔
      ∃ first, Run.Reaches (fun n => Eval.located (eval cx n) stmt) s first ∧
        first.map (fun p => BodyResult.ofNode p.1 p.2) = out := by
  simp only [Eval.statement_eq_located]
  exact Run.reaches_map

theorem stable_statement (cx : Context ν) (stmt : Expr ν) :
    Run.Stable fun n => Eval.statement (eval cx n) stmt := by
  simp only [Eval.statement_eq_located]
  exact .bind (stable_located cx stmt) fun _ => .const _

theorem Completes.statement {v : Option Value} (h : Completes cx stmt s v t) :
    Run.Reaches (fun n => Eval.statement (eval cx n) stmt) s (.value (v.map .completed) t) := by
  rw [reaches_statement]
  cases h with
  | skipped whole path => exact ⟨_, located_of_selects whole path, rfl⟩
  | ran whole path node =>
      refine ⟨_, located_of_selects whole path, ?_⟩
      exact congrArg (Outcome.value · t) (BodyResult.ofNode_of_ne node _)

theorem Finishes.statement {out : Outcome (State ν) EvalError BodyResult}
    (h : Finishes cx stmt s out) :
    Run.Reaches (fun n => Eval.statement (eval cx n) stmt) s (out.map some) := by
  rw [reaches_statement]
  cases h with
  | returned whole path => exact ⟨_, located_of_selects whole path, rfl⟩
  | failed whole => exact ⟨_, located_of_error whole, rfl⟩

theorem stable_proceed (cx : Context ν) (rest : List (Expr ν)) (last : Value) :
    ∀ result, Run.Stable fun n => Eval.proceed (Eval.body (eval cx n) rest) last result
  | none => stable_body cx rest last
  | some (.returned _) => .const _
  | some (.completed v) => stable_body cx rest v

/-- A body deals with its first statement and then, unless it is over, with the others. -/
theorem reaches_body_cons {rest : List (Expr ν)} {last : Value}
    {out : Outcome (State ν) EvalError BodyResult} :
    Run.Reaches (fun n => Eval.body (eval cx n) (stmt :: rest) last) s out ↔
      (∃ v t, Completes cx stmt s v t ∧
        Run.Reaches (fun n => Eval.body (eval cx n) rest (v.getD last)) t out) ∨
      Finishes cx stmt s out := by
  simp only [Eval.body_cons]
  constructor
  · intro h
    rcases (Run.reaches_bind (stable_statement cx stmt) (stable_proceed cx rest last)).1 h
      with ⟨r, t, first, goes⟩ | ⟨e, t, failed, rfl⟩
    · obtain ⟨p, ends, same⟩ := reaches_statement.1 first
      rcases of_located ends with ⟨v, t', completes, result, -⟩ | ⟨out', finishes, result, -⟩
      · cases result.symm.trans same
        refine .inl ⟨v, t, completes, ?_⟩
        cases v <;> exact goes
      · cases finishes with
        | returned whole path =>
            cases result.symm.trans same
            cases Run.reaches_pure.1 goes
            exact .inr (.returned whole path)
        | failed whole => cases result.symm.trans same
    · obtain ⟨p, ends, same⟩ := reaches_statement.1 failed
      rw [Outcome.map_eq_error.1 same] at ends
      exact .inr (.failed (evaluates_iff.2 (Run.reaches_map.2 ⟨_, ends, rfl⟩)))
  · rintro (⟨v, t, completes, goes⟩ | finishes)
    · refine (Run.reaches_bind_of_value (stable_statement cx stmt) (stable_proceed cx rest last _)
        completes.statement).2 ?_
      cases v <;> exact goes
    · have ends := finishes.statement
      refine (Run.reaches_bind (stable_statement cx stmt) (stable_proceed cx rest last)).2 ?_
      cases finishes with
      | returned _ _ => exact .inl ⟨_, _, ends, Run.reaches_pure.2 rfl⟩
      | failed _ => exact .inr ⟨_, _, ends, rfl⟩

theorem Completes.unique {v v' : Option Value} {t' : State ν} (h : Completes cx stmt s v t)
    (h' : Completes cx stmt s v' t') : v = v' ∧ t = t' := by
  have same := h.statement.unique (stable_statement cx stmt) h'.statement
  obtain ⟨results, rfl⟩ := Outcome.value.inj same
  exact ⟨Option.map_injective (fun _ _ => BodyResult.completed.inj) results, rfl⟩

theorem Completes.not_finishes {v : Option Value} (h : Completes cx stmt s v t)
    (out : Outcome (State ν) EvalError BodyResult) : ¬Finishes cx stmt s out := by
  intro finishes
  have same := h.statement.unique (stable_statement cx stmt) finishes.statement
  cases finishes with
  | returned _ _ => cases v <;> cases same
  | failed _ => cases same

/-- What an evaluation of a statement yields is what a body makes of it. -/
theorem evaluates_cases {out : Outcome (State ν) EvalError Value} (h : Evaluates cx stmt s out) :
    (∃ v t, Completes cx stmt s v t ∧ out = .value (v.getD .nil) t) ∨
    ∃ ended, Finishes cx stmt s ended ∧ out = ended.map BodyResult.value := by
  obtain ⟨first, ends, rfl⟩ := Run.reaches_map.1 (evaluates_iff.1 h)
  rcases of_located ends with ⟨v, t, completes, -, same⟩ | ⟨ended, finishes, -, same⟩
  · exact .inl ⟨v, t, completes, same⟩
  · exact .inr ⟨ended, finishes, same⟩

theorem Completes.evaluates {v : Option Value} (h : Completes cx stmt s v t) :
    Evaluates cx stmt s (.value (v.getD .nil) t) := by
  cases h with
  | skipped whole _ => exact whole
  | ran whole _ _ => exact whole

theorem Finishes.evaluates {out : Outcome (State ν) EvalError BodyResult} (h : Finishes cx stmt s out) :
    Evaluates cx stmt s (out.map BodyResult.value) := by
  cases h with
  | returned whole _ => exact whole
  | failed whole => exact whole

/-- A statement whose evaluation does not end. -/
theorem not_evaluates_iff :
    (∀ out, ¬Evaluates cx stmt s out) ↔
      (∀ v t, ¬Completes cx stmt s v t) ∧ ∀ out, ¬Finishes cx stmt s out := by
  constructor
  · exact fun stuck => ⟨fun v t h => stuck _ h.evaluates, fun out h => stuck _ h.evaluates⟩
  · rintro ⟨notCompletes, notFinishes⟩ out whole
    rcases evaluates_cases whole with ⟨v, t, completes, -⟩ | ⟨ended, finishes, -⟩
    · exact notCompletes v t completes
    · exact notFinishes ended finishes

theorem body_goesThrough (cx : Context ν) :
    GoesThrough (fun stmts last => Run.Reaches fun n => Eval.body (eval cx n) stmts last)
      (Completes cx) (fun last v => v.getD last) (Finishes cx)
      fun last s => .value (.completed last) s where
  nil _ _ _ := Run.reaches_pure
  cons _ _ _ _ _ := reaches_body_cons
  unique _ _ _ _ _ _ := Completes.unique
  exclusive _ _ _ _ out h := h.not_finishes out

/-- The last value that is there. -/
theorem foldl_getD (vs : List (Option Value)) (last : Value) :
    vs.foldl (fun last v => v.getD last) last = vs.reduceOption.getLast?.getD last := by
  induction vs generalizing last with
  | nil => rfl
  | cons v vs ih =>
      rw [List.foldl_cons, ih]
      cases v with
      | none => rw [List.reduceOption_cons_of_none, Option.getD_none]
      | some v =>
          rw [List.reduceOption_cons_of_some, List.getLast?_cons, Option.getD_some, Option.getD_some]

namespace Eval

/-- A body evaluates its statements one after another. It goes on after those whose branch path does not
end in a return, and without one that is over it completes with the last value there is, `NIL` if there
is none; it does not end if it comes to a statement whose evaluation does not end. A body of one
statement has the value of the statement. -/
theorem body_agrees (cx : Context ν) :
    (∀ stmts s out, BodyEnds cx stmts s out ↔
      (∃ vs t, Passes (Completes cx) s stmts vs t ∧
        out = .value (.completed (vs.reduceOption.getLast?.getD .nil)) t) ∨
      ∃ before stmt after vs t, stmts = before ++ stmt :: after ∧
        Passes (Completes cx) s before vs t ∧ Finishes cx stmt t out) ∧
    (∀ stmts s, (∀ out, ¬BodyEnds cx stmts s out) ↔
      ∃ before stmt after vs t, stmts = before ++ stmt :: after ∧
        Passes (Completes cx) s before vs t ∧ ∀ out, ¬Evaluates cx stmt t out) ∧
    ∀ stmt s out,
      Outcome.Converges (fun n => (body (eval cx n) [stmt] .nil s).map BodyResult.value) out ↔
        Evaluates cx stmt s out := by
  refine ⟨fun stmts s out => ?_, fun stmts s => ?_, fun stmt s out => ?_⟩
  · refine ((body_goesThrough cx).ends stmts .nil s out).trans ?_
    simp only [foldl_getD]
  · refine ((body_goesThrough cx).stuck stmts .nil s).trans ?_
    simp only [not_evaluates_iff]
  · show Outcome.Converges (fun n => (body (eval cx n) [stmt] .nil s).map BodyResult.value) out ↔ _
    rw [Outcome.converges_map]
    constructor
    · rintro ⟨ended, ends, rfl⟩
      rcases reaches_body_cons.1 ends with ⟨v, t, completes, goes⟩ | finishes
      · cases Run.reaches_pure.1 goes
        exact completes.evaluates
      · exact finishes.evaluates
    · intro whole
      rcases evaluates_cases whole with ⟨v, t, completes, rfl⟩ | ⟨ended, finishes, rfl⟩
      · exact ⟨_, reaches_body_cons.2 (.inl ⟨v, t, completes, Run.reaches_pure.2 rfl⟩), rfl⟩
      · exact ⟨ended, reaches_body_cons.2 (.inr finishes), rfl⟩

end Eval

end MiniLisp
