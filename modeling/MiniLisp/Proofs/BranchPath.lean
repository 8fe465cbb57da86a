import MiniLisp.Proofs.Bodies
import MiniLisp.Proofs.Subterms

/-!
The path that resolving a statement follows. An evaluator with a log tells what it is asked: the
conditions of nested `if`s, from the outermost to the innermost, and nothing else. From an `if` the path
goes on with the branch that the value of its condition chooses, and it is over where there is no `if`
or no such branch, or where a condition gets no value (`resolve_follows_path`).
-/

namespace MiniLisp

variable {ν σ ε α β : Type}

namespace Run

/-- Notes what a computation is called with, also when it fails. -/
def logged (f : β → Run σ ε α) (b : β) : Run (σ × List β) ε α := fun s =>
  match f b s.1 with
  | .value a after => .value a (after, s.2 ++ [b])
  | .error e after => .error e (after, s.2 ++ [b])
  | .exhausted => .exhausted

theorem logged_apply (f : β → Run σ ε α) (b : β) (s : σ) (log : List β) :
    logged f b (s, log) = match f b s with
      | .value a after => .value a (after, log ++ [b])
      | .error e after => .error e (after, log ++ [b])
      | .exhausted => .exhausted := rfl

theorem mapM_cons_of_value {f : β → Run σ ε α} {b : β} {bs : List β} {a : α} {as : List α}
    {s t u : σ} (first : f b s = .value a t) (others : bs.mapM f t = .value as u) :
    (b :: bs).mapM f s = .value (a :: as) u := by
  rw [List.mapM_cons, bind_of_value first, bind_of_value others, pure_apply]

end Run

/-- An `if` and its parts; it may lack an alternative. -/
structure Conditional (ν : Type) where
  cond : Expr ν
  yes : Expr ν
  no : Option (Expr ν)

namespace Conditional

/-- The `if` as a form. -/
def expr : Conditional ν → Expr ν
  | ⟨cond, yes, none⟩ => .ifThen cond yes
  | ⟨cond, yes, some no⟩ => .ifElse cond yes no

/-- The branch that goes with a value of the condition. -/
def choose (c : Conditional ν) (v : Value) : Option (Expr ν) :=
  if v = .nil then c.no else some c.yes

/-- The expression is, or is inside of, a branch of the `if`. -/
def Encloses (c : Conditional ν) (e : Expr ν) : Prop :=
  ∃ v branch, c.choose v = some branch ∧ e ∈ branch.subterms

variable {c : Conditional ν} {v : Value} {branch e : Expr ν}

theorem choose_eq_none : c.choose v = none ↔ v = .nil ∧ c.no = none := by
  unfold choose
  split <;> simp [*]

theorem selectBranch_eq (c : Conditional ν) (v : Value) : selectBranch v c.yes c.no = c.choose v := by
  by_cases h : v = .nil <;> simp [selectBranch, choose, Value.isTrue_iff, h]

theorem mem_parts_of_choose (h : c.choose v = some branch) : branch ∈ c.expr.parts := by
  obtain ⟨cond, yes, no⟩ := c
  unfold choose at h
  split at h
  · obtain rfl : no = some branch := h
    simp [expr, Expr.parts]
  · obtain rfl : yes = branch := Option.some.inj h
    cases no <;> simp [expr, Expr.parts]

theorem mem_subterms_of_choose (h : c.choose v = some branch) (inside : e ∈ branch.subterms) :
    e ∈ c.expr.subterms :=
  Expr.mem_subterms_of_mem_parts (mem_parts_of_choose h) inside

end Conditional

/-- Induction along branch paths, with one case for both forms of `if`. -/
theorem Expr.conditional_induction {motive : Expr ν → Prop}
    (node : ∀ stmt : Expr ν, stmt.isConditional = false → motive stmt)
    (conditional : ∀ c : Conditional ν,
      (∀ v branch, c.choose v = some branch → motive branch) → motive c.expr) (stmt : Expr ν) :
    motive stmt := by
  induction stmt using Expr.path_induction with
  | node stmt h => exact node stmt h
  | ifThen cond yes ih =>
      refine conditional ⟨cond, yes, none⟩ fun v branch h => ?_
      obtain ⟨-, rfl⟩ : v ≠ .nil ∧ yes = branch := by simpa [Conditional.choose] using h
      exact ih
  | ifElse cond yes no ihYes ihNo =>
      refine conditional ⟨cond, yes, some no⟩ fun v branch h => ?_
      unfold Conditional.choose at h
      split at h
      · cases h
        exact ihNo
      · cases h
        exact ihYes

/-- The `if`s on the way down a statement, outermost first, with the values of their conditions. -/
abbrev BranchPath (ν : Type) : Type := List (Conditional ν × Value)

namespace BranchPath

def conditions (path : BranchPath ν) : List (Expr ν) := path.map fun p => p.1.cond

def values (path : BranchPath ν) : List Value := path.map Prod.snd

theorem conditions_nil : conditions ([] : BranchPath ν) = [] := rfl

end BranchPath

/-- The path starts at the statement, goes from each `if` to the branch that the value of its condition
chooses, and comes to an expression, or to none if its last `if` has no such branch. -/
inductive Expr.Leads : Expr ν → BranchPath ν → Option (Expr ν) → Prop
  | here (stmt : Expr ν) : Leads stmt [] (some stmt)
  | absent {c : Conditional ν} {v : Value} : c.choose v = none → Leads c.expr [(c, v)] none
  | chosen {c : Conditional ν} {v : Value} {branch : Expr ν} {path : BranchPath ν}
      {live : Option (Expr ν)} : c.choose v = some branch → Leads branch path live →
      Leads c.expr ((c, v) :: path) live

namespace Expr.Leads

variable {stmt node : Expr ν} {path : BranchPath ν} {live : Option (Expr ν)}

theorem mem_subterms (h : stmt.Leads path (some node)) : node ∈ stmt.subterms := by
  generalize arrived : some node = live at h
  induction h with
  | here stmt =>
      cases arrived
      exact node.self_mem_subterms
  | absent _ => cases arrived
  | chosen branch _ ih => exact Conditional.mem_subterms_of_choose branch (ih arrived)

/-- The `if`s on a path are parts of the statement. -/
theorem subterms_of_mem (h : stmt.Leads path live) : ∀ p ∈ path, p.1.expr ∈ stmt.subterms := by
  induction h with
  | here stmt => simp
  | @absent c v _ => simpa using c.expr.self_mem_subterms
  | @chosen c v _ _ _ branch _ ih =>
      intro p mem
      rcases List.mem_cons.1 mem with rfl | mem
      · exact c.expr.self_mem_subterms
      · exact Conditional.mem_subterms_of_choose branch (ih p mem)

theorem encloses (h : stmt.Leads path (some node)) : ∀ p ∈ path, p.1.Encloses node := by
  generalize arrived : some node = live at h
  induction h with
  | here stmt => simp
  | absent _ => cases arrived
  | @chosen c v _ _ _ branch leads ih =>
      intro p mem
      rcases List.mem_cons.1 mem with rfl | mem
      · subst arrived
        exact ⟨v, _, branch, leads.mem_subterms⟩
      · exact ih arrived p mem

/-- Each `if` on a path is inside of a branch of those before it. -/
theorem nested (h : stmt.Leads path live) :
    path.Pairwise fun outer inner => outer.1.Encloses inner.1.expr := by
  induction h with
  | here stmt => exact .nil
  | absent _ => exact List.pairwise_singleton _ _
  | @chosen c v _ _ _ branch leads ih =>
      exact .cons (fun p mem => ⟨v, _, branch, leads.subterms_of_mem p mem⟩) ih

theorem eq_none_iff (h : stmt.Leads path live) :
    live = none ↔ ∃ c, path.getLast? = some (c, .nil) ∧ c.no = none := by
  induction h with
  | here stmt => simp
  | @absent c v lacking =>
      obtain ⟨rfl, none⟩ := Conditional.choose_eq_none.1 lacking
      simpa using none
  | @chosen c v branch path live chosen leads ih =>
      cases path with
      | nil =>
          -- The last `if` of the path has chosen a branch, which is what is left.
          cases leads
          refine ⟨nofun, ?_⟩
          rintro ⟨c, last, lacking⟩
          cases last
          rw [Conditional.choose_eq_none.2 ⟨rfl, lacking⟩] at chosen
          cases chosen
      | cons p rest => rwa [List.getLast?_cons_cons]

end Expr.Leads

/-- How resolving ends, without a log and with one, where a path ends. What is left there is the result
if it is no `if`. If it is one, its condition is asked for as well, but has no value, and resolving ends
the way the condition does. -/
inductive PathEnds (test : Expr ν → Run σ ε Value) (t : σ) (log : List (Expr ν)) :
    Option (Expr ν) → Outcome σ ε (Option (Expr ν)) →
    Outcome (σ × List (Expr ν)) ε (Option (Expr ν)) → Prop
  | arrived {live : Option (Expr ν)} : (∀ node, live = some node → node.isConditional = false) →
      PathEnds test t log live (.value live t) (.value live (t, log))
  | failed {c : Conditional ν} {e : ε} {u : σ} : test c.cond t = .error e u →
      PathEnds test t log (some c.expr) (.error e u) (.error e (u, log ++ [c.cond]))
  | stuck {c : Conditional ν} : test c.cond t = .exhausted →
      PathEnds test t log (some c.expr) .exhausted .exhausted

section Resolve

variable (test : Expr ν → Run σ ε Value)

theorem resolve_of_node {stmt : Expr ν} (h : stmt.isConditional = false) :
    resolve test stmt = pure (some stmt) := by
  cases stmt with
  | ifThen cond yes => cases h
  | ifElse cond yes no => cases h
  | _ => rfl

/-- One step of resolving asks for one condition and goes on with the branch that its value chooses. -/
theorem resolve_conditional (c : Conditional ν) :
    resolve test c.expr =
      (test c.cond >>= fun v => (c.choose v).elim (pure none) (resolve test)) := by
  simp only [← c.selectBranch_eq]
  obtain ⟨cond, yes, _ | no⟩ := c
  · exact resolve_ifThen test cond yes
  · exact resolve_ifElse test cond yes no

/-- The induction is along the branch path, with any log so far. -/
theorem exists_branchPath (stmt : Expr ν) (s : σ) (log : List (Expr ν)) :
    ∃ (path : BranchPath ν) (live : Option (Expr ν)) (t : σ), stmt.Leads path live ∧
      path.conditions.mapM test s = .value path.values t ∧
      PathEnds test t (log ++ path.conditions) live (resolve test stmt s)
        (resolve (Run.logged test) stmt (s, log)) := by
  induction stmt using Expr.conditional_induction generalizing s log with
  | node stmt h =>
      refine ⟨[], some stmt, s, .here stmt, rfl, ?_⟩
      rw [resolve_of_node test h, resolve_of_node (Run.logged test) h, BranchPath.conditions_nil,
        List.append_nil]
      refine .arrived fun node same => ?_
      cases same
      exact h
  | conditional c ih =>
      rw [resolve_conditional, resolve_conditional]
      cases called : test c.cond s with
      | value v t =>
          have noted : Run.logged test c.cond (s, log) = .value v (t, log ++ [c.cond]) := by
            rw [Run.logged_apply, called]
          rw [Run.bind_of_value called, Run.bind_of_value noted]
          cases branch : c.choose v with
          | none =>
              exact ⟨[(c, v)], none, t, .absent branch, Run.mapM_cons_of_value called rfl,
                .arrived nofun⟩
          | some next =>
              obtain ⟨path, live, u, leads, answered, ends⟩ := ih v next branch t (log ++ [c.cond])
              refine ⟨(c, v) :: path, live, u, .chosen branch leads,
                Run.mapM_cons_of_value called answered, ?_⟩
              rwa [List.append_assoc] at ends
      | error e t =>
          have noted : Run.logged test c.cond (s, log) = .error e (t, log ++ [c.cond]) := by
            rw [Run.logged_apply, called]
          rw [Run.bind_of_error called, Run.bind_of_error noted]
          refine ⟨[], some c.expr, s, .here c.expr, rfl, ?_⟩
          rw [BranchPath.conditions_nil, List.append_nil]
          exact .failed called
      | exhausted =>
          have noted : Run.logged test c.cond (s, log) = .exhausted := by
            rw [Run.logged_apply, called]
          rw [Run.bind_of_exhausted called, Run.bind_of_exhausted noted]
          exact ⟨[], some c.expr, s, .here c.expr, rfl, .stuck called⟩

/-- Resolving follows one path. What the evaluator is asked are the conditions of the `if`s on the path,
in this order, where each `if` is inside of a branch of those before it. Their values choose the
branches. The result is none if the last condition is `NIL` and its `if` has no alternative; otherwise
it is the part of the statement to which the path leads, and no `if`. If a condition fails, its error is
the result, and nothing is asked for after it; resolving does not end only if a condition does not. -/
theorem resolve_follows_path (stmt : Expr ν) (s : σ) :
    ∃ (path : BranchPath ν) (live : Option (Expr ν)) (t : σ), stmt.Leads path live ∧
      path.conditions.mapM test s = .value path.values t ∧
      PathEnds test t path.conditions live (resolve test stmt s)
        (resolve (Run.logged test) stmt (s, [])) ∧
      (path.Pairwise fun outer inner => outer.1.Encloses inner.1.expr) ∧
      (live = none ↔ ∃ c, path.getLast? = some (c, .nil) ∧ c.no = none) ∧
      ∀ node, live = some node → node ∈ stmt.subterms ∧ ∀ p ∈ path, p.1.Encloses node := by
  obtain ⟨path, live, t, leads, answered, ends⟩ := exists_branchPath test stmt s []
  refine ⟨path, live, t, leads, answered, ends, leads.nested, leads.eq_none_iff, ?_⟩
  rintro node rfl
  exact ⟨leads.mem_subterms, leads.encloses⟩

end Resolve

/-- The evaluator counts its calls, gives `NIL` at first and fails then. -/
example (one two : Expr String) :
    resolve (Run.logged fun _ n => if n = 0 then .value .nil 1 else .error "lost" (n + 1))
      (.ifElse (.var "a") one (.ifThen (.var "b") two)) (0, []) =
        .error "lost" (2, [.var "a", .var "b"]) := rfl

end MiniLisp
