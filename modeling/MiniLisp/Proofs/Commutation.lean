import MiniLisp.Proofs.Code
import MiniLisp.Proofs.Execution
import MiniLisp.Proofs.Simulation

/-!
Independent forms. A form that writes no name that another one mentions, and prints nothing, leaves
the other one's evaluation as it is. Main statement: two such forms can be executed in either order
(`Interpreter.forms_commute`).
-/

namespace MiniLisp

variable {ν α : Type} [DecidableEq ν]

/-- What is not among the changed names keeps its binding in the current scope. -/
theorem Chain.Moves.own_eq {names : ν → Prop} {c c' : Chain ν} (h : Moves names names names c c')
    {x : ν} (hx : ¬names x) : c'.own.get? x = c.own.get? x := by
  cases h with
  | root hb => exact (hb x).resolve_right fun ⟨_, written, _⟩ => hx (by simpa using written)
  | child hb _ => exact (hb x).resolve_right fun ⟨_, written, _⟩ => hx (by simpa using written)

theorem Chain.Corresponds.own {R : Correspondence ν ν} {c d : Chain ν} (h : Corresponds R c d) :
    R.bindings c.own d.own := by
  cases h with
  | root hb => exact hb
  | child hb _ => exact hb

namespace Interpreter

namespace AgreeOn

variable {scopes : List Nat} {a b c : Interpreter ν}

theorem symm (h : AgreeOn scopes a b) : AgreeOn scopes b a :=
  ⟨h.size.symm, fun t => (h.parents t).symm, h.functions.symm, h.frames.symm, h.limit.symm,
    h.printer.symm, fun t mem x => (h.bindings t mem x).symm⟩

theorem trans (h : AgreeOn scopes a b) (h' : AgreeOn scopes b c) : AgreeOn scopes a c :=
  ⟨h'.size.trans h.size, fun t => (h'.parents t).trans (h.parents t),
    h'.functions.trans h.functions, h'.frames.trans h.frames, h'.limit.trans h.limit,
    h'.printer.trans h.printer, fun t mem x => (h'.bindings t mem x).trans (h.bindings t mem x)⟩

theorem of_root (h : AgreeOn [] a b)
    (bindings : Bindings.Agree (a.store.bindings root) (b.store.bindings root)) :
    AgreeOn [root] a b :=
  { h with bindings := fun _ mem => List.mem_singleton.1 mem ▸ bindings }

end AgreeOn

/-- The interpreters have the same scopes, functions, active calls, limit and printer, and some names
are bound to the same values in the root. -/
structure AgreeFor (names : ν → Prop) (a b : Interpreter ν) : Prop where
  shape : AgreeOn [] a b
  names : ∀ x, names x → (b.store.bindings root).get? x = (a.store.bindings root).get? x

namespace AgreeFor

variable {names names' : ν → Prop} {a b c : Interpreter ν}

theorem symm (h : AgreeFor names a b) : AgreeFor names b a :=
  ⟨h.shape.symm, fun x hx => (h.names x hx).symm⟩

theorem mono (h : AgreeFor names a b) (sub : ∀ x, names' x → names x) : AgreeFor names' a b :=
  ⟨h.shape, fun x hx => h.names x (sub x hx)⟩

end AgreeFor

variable {label : ν → String} {a b : Interpreter ν} {e : Expr ν}

omit [DecidableEq ν] in
theorem parent?_root (store : Store ν) : store.parent? root = none := by
  cases h : store.parent? root with
  | none => rfl
  | some p => exact absurd (store.parent?_lt h) (Nat.not_lt_zero p)

/-- Executing an expression only depends on the names in its code. -/
theorem execute_mentioned (agree : AgreeFor (a.functions.Mentions e) a b)
    {out : Outcome (Interpreter ν) EvalError (Option Value)}
    (converges : Outcome.Converges (a.execute label · (.expr e)) out) :
    ∃ out', Outcome.Converges (b.execute label · (.expr e)) out' ∧
      Outcome.Follows (AgreeFor (a.functions.Mentions e)) out out' := by
  refine converges.follows fun fuel => ?_
  rw [execute_expr, execute_expr]
  refine Outcome.Follows.map ?_ some
  unfold eval
  rw [agree.shape.context_eq label]
  refine follows_run ⟨agree.shape.alike_load, ?_⟩ (follows_eval_mentioned (a.context label) fuel e)
    fun s t _ _ after => ⟨agree.shape.save after.alike nofun, fun x hx => ?_⟩
  · unfold load
    rw [a.store.view_of_root (parent?_root _), b.store.view_of_root (parent?_root _)]
    exact .root agree.names
  · rw [save, save, Store.bindings_commit_self, Store.bindings_commit_self, agree.shape.size]
    split
    · exact after.scopes.own x hx
    · exact agree.names x hx

/-- Executing an expression that prints nothing only changes the targets in its code. -/
theorem execute_written (silent : a.functions.Silent e)
    {out : Outcome (Interpreter ν) EvalError (Option Value)}
    (converges : Outcome.Converges (a.execute label · (.expr e)) out) {after : Interpreter ν}
    (ended : out.after? = some after) : AgreeFor (fun x => ¬a.functions.Writes e x) a after := by
  obtain ⟨-, fuel, rfl⟩ := converges
  dsimp only at ended
  rw [execute_expr, Outcome.after?_map, eval, after?_run, Option.map_eq_some_iff] at ended
  obtain ⟨s, reached, rfl⟩ := ended
  have settles := settles_eval (a.context label) fuel e _ s reached
  have changes := within_eval_written (a.context label) fuel silent _ s reached
  refine ⟨⟨a.store.size_commit root s.scopes, fun t => a.store.parent?_commit root t s.scopes, rfl,
    settles.frames, settles.limit, changes.printer, nofun⟩, fun x free => ?_⟩
  rw [save, Store.bindings_commit_self]
  split
  · rw [changes.scopes.own_eq free]
    exact congrArg (·.get? x) (a.store.own_view root)
  · rfl

/-- Executing two expressions in one order: where it gets after each of them. -/
theorem executes_two {d : Expr ν} {first second : Outcome (Interpreter ν) EvalError (Option Value)} :
    Executes label a [.expr e, .expr d] [first, second] ↔
      ∃ mid last, Outcome.Converges (a.execute label · (.expr e)) first ∧ first.after? = some mid ∧
        Outcome.Converges (mid.execute label · (.expr d)) second ∧ second.after? = some last := by
  constructor
  · rintro (_ | ⟨converges, ended, _ | ⟨converges', ended', -⟩⟩)
    exact ⟨_, _, converges, ended, converges', ended'⟩
  · rintro ⟨mid, last, converges, ended, converges', ended'⟩
    exact .form converges ended (.form converges' ended' (.stop last []))

/-- Two expressions that print nothing, neither of which writes a name that the other one mentions,
can be executed in either order. Both come to an end in the other order too, each one ends with the
same value or the same error, and the root gets the same bindings. -/
theorem forms_commute (label : ν → String) (interp : Interpreter ν) (e d : Expr ν)
    (silent : interp.functions.Silent e) (silent' : interp.functions.Silent d)
    (apart : ∀ x, interp.functions.Writes e x → ¬interp.functions.Mentions d x)
    (apart' : ∀ x, interp.functions.Writes d x → ¬interp.functions.Mentions e x)
    {first second : Outcome (Interpreter ν) EvalError (Option Value)}
    (executes : Executes label interp [.expr e, .expr d] [first, second]) :
    ∃ second' first', Executes label interp [.expr d, .expr e] [second', first'] ∧
      Outcome.Matches (fun _ _ => True) first first' ∧
      Outcome.Matches (fun _ _ => True) second second' ∧
      ∃ last last', second.after? = some last ∧ first'.after? = some last' ∧
        AgreeOn [root] last last' := by
  obtain ⟨mid, last, converges, ended, converges', ended'⟩ := executes_two.1 executes
  have left := execute_written silent converges ended
  have functions := left.shape.functions
  have right := execute_written (by rwa [functions]) converges' ended'
  -- the second expression goes the same way before the first one
  have unseen : AgreeFor (mid.functions.Mentions d) mid interp := by
    rw [functions]
    exact left.symm.mono fun x mentioned written => apart x written mentioned
  obtain ⟨second', converges₂, follows₂⟩ := execute_mentioned unseen converges'
  have matched₂ := follows₂.matches converges'.1
  obtain ⟨mid', ended₂, same₂⟩ := matched₂.after? ended'
  have left' := execute_written silent' converges₂ ended₂
  -- and the first one goes the same way after it
  have unseen' : AgreeFor (interp.functions.Mentions e) interp mid' :=
    left'.mono fun x mentioned written => apart' x written mentioned
  obtain ⟨first', converges₁, follows₁⟩ := execute_mentioned unseen' converges
  have matched₁ := follows₁.matches converges.1
  obtain ⟨last', ended₁, same₁⟩ := matched₁.after? ended
  have functions' := left'.shape.functions
  have right' := execute_written (by rwa [functions']) converges₁ ended₁
  rw [functions] at right same₂
  rw [functions'] at right'
  refine ⟨second', first', executes_two.2 ⟨mid', last', converges₂, ended₂, converges₁, ended₁⟩,
    matched₁.mono fun _ _ _ => trivial, matched₂.mono fun _ _ _ => trivial, last, last', ended',
    ended₁, ?_⟩
  -- each name keeps the last value that its writer gave it
  refine AgreeOn.of_root (right.shape.symm.trans same₁.shape) fun x => ?_
  by_cases first : interp.functions.Writes e x
  · rw [same₁.names x first.mentions, right.names x fun second => apart' x second first.mentions]
  by_cases second : interp.functions.Writes d x
  · rw [right'.names x first, same₂.names x second.mentions]
  · rw [right'.names x first, left'.names x second, right.names x second, left.names x first]

/-- A root that binds the name 0, and a function 9 that moves the name 0 up by its argument. -/
def accumulator : Interpreter Nat where
  store := Store.new.setBindings 0 ⟨[(0, .int 1)]⟩
  functions := (FunctionTable.new.define ⟨9, [3], [.update (.move .up) 0 (.var 3)]⟩).2
  stack := CallStack.new none
  printer := .silent

/-- A sum that fails after it has bound the name 1, and a call that moves the name 0. -/
theorem forms_commute_accumulator :
    let e := .variadic (.arithmetic .add) [.update .setf 1 (.literal (.int 5)), .var 2]
    let d := .call 9 [.literal (.int 4)]
    ∃ first second second' first' last last',
      Executes toString accumulator [.expr e, .expr d] [first, second] ∧
      Executes toString accumulator [.expr d, .expr e] [second', first'] ∧
      Outcome.Matches (fun _ _ => True) first first' ∧
      Outcome.Matches (fun _ _ => True) second second' ∧
      first.failure?.map EvalError.cause = some (.undefinedVariable "2") ∧
      second.after? = some last ∧ first'.after? = some last' ∧ AgreeOn [root] last last' := by
  intro e d
  have code : ∀ c, accumulator.functions.Code e c → c ∈ e.subterms := fun c code =>
    code.mem (fun _ => id) fun f args found mem => by
      simp [e, Expr.subterms, Expr.subtermsAll] at mem
  have code' : ∀ c, accumulator.functions.Code d c →
      c ∈ d.subterms ++ Expr.subtermsAll [.update (.move .up) 0 (.var 3)] := fun c code =>
    code.mem (fun _ => List.mem_append_left _) fun f args found mem known => by
      simp [d, Expr.subterms, Expr.subtermsAll] at mem
      obtain ⟨rfl, -⟩ := mem
      cases known
      exact fun c inside => List.mem_append_right _ inside
  have silent : accumulator.functions.Silent e := fun operand print => by
    simpa [e, Expr.subterms, Expr.subtermsAll] using code _ print
  have silent' : accumulator.functions.Silent d := fun operand print => by
    simpa [d, Expr.subterms, Expr.subtermsAll] using code' _ print
  have mentions : ∀ x, accumulator.functions.Mentions e x → x ∈ [1, 2] := by
    have vars : ∀ c ∈ e.subterms, ∀ x ∈ c.vars, x ∈ [1, 2] := by decide +kernel
    rintro x (⟨c, inside, named⟩ | ⟨f, args, found, inside, -⟩)
    · exact vars c (code c inside) x named
    · simpa [e, Expr.subterms, Expr.subtermsAll] using code _ inside
  have mentions' : ∀ x, accumulator.functions.Mentions d x → x ∈ [0, 3] := by
    have vars : ∀ c ∈ d.subterms ++ Expr.subtermsAll [.update (.move .up) 0 (.var 3)],
      ∀ x ∈ c.vars, x ∈ [0, 3] := by decide +kernel
    rintro x (⟨c, inside, named⟩ | ⟨f, args, found, inside, known, param⟩)
    · exact vars c (code' c inside) x named
    · have := code' _ inside
      simp [d, Expr.subterms, Expr.subtermsAll] at this
      obtain ⟨rfl, -⟩ := this
      cases known
      exact List.mem_cons_of_mem _ param
  have apart : ∀ x, ¬(accumulator.functions.Mentions e x ∧ accumulator.functions.Mentions d x) := by
    rintro x ⟨h, h'⟩
    exact absurd (mentions' x h') ((by decide : ∀ x ∈ [1, 2], x ∉ [0, 3]) x (mentions x h))
  let first := accumulator.execute toString 5 (.expr e)
  have ends : (first.after?.bind fun mid => (mid.execute toString 5 (.expr d)).after?).isSome := by
    decide +kernel
  have fails : first.failure?.map EvalError.cause = some (.undefinedVariable "2") := by
    decide +kernel
  obtain ⟨last, ended⟩ := Option.isSome_iff_exists.1 ends
  obtain ⟨mid, ended, ended'⟩ := Option.bind_eq_some_iff.1 ended
  have executes : Executes toString accumulator [.expr e, .expr d]
      [first, mid.execute toString 5 (.expr d)] :=
    executes_two.2 ⟨mid, last, .of_after? ended, ended, .of_after? ended', ended'⟩
  obtain ⟨second', first', executes', same, same', last, last', ends, ends', agree⟩ :=
    forms_commute toString accumulator e d silent silent'
      (fun x writes mentions => apart x ⟨writes.mentions, mentions⟩)
      (fun x writes mentions => apart x ⟨mentions, writes.mentions⟩) executes
  exact ⟨_, _, second', first', last, last', executes, executes', same, same', fails, ends, ends',
    agree⟩

end Interpreter

end MiniLisp
