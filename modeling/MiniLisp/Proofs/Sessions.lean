import MiniLisp.Proofs.Backtrace
import MiniLisp.Proofs.Registrations
import MiniLisp.Proofs.Store
import MiniLisp.Session

/-!
Scopes and functions over a whole session. A command leaves every scope where it is, adds at most one,
and registers at most one definition, in the table that all scopes share (`Session.effect_step`). So
over any run of commands the parents of scopes are fixed when the scopes are created, and every scope
shows the definitions registered last (`Session.scopes_and_functions`).
-/

namespace MiniLisp

variable {ν : Type}

namespace Command

/-- The definition that a command registers. -/
def registered? : Command ν → Option (FunctionDef ν)
  | .execute (.function fn) => some fn
  | .defineFunction _ fn => some fn
  | .registerFunction fn => some fn
  | _ => none

/-- The parent of the scope that a command adds, if the command adds one. -/
def added? (store : Store ν) : Command ν → Option (Option Nat)
  | .child scope => some (some scope)
  | .clone scope => some (store.parent? scope)
  | _ => none

end Command

namespace Session

variable {session after : Session ν} {command : Command ν} {scope i : Nat}

/-- All scopes lead to the table of the environment. -/
structure Shared (session : Session ν) : Prop where
  known : (session.tables.read? session.environment).isSome
  size : session.links.size = session.store.size
  links : ∀ i < session.store.size, session.links[i]? = some session.environment

theorem Shared.functionsOf (shared : session.Shared) (exists_scope : i < session.store.size) :
    session.functionsOf i = session.interp.functions := by
  unfold Session.functionsOf
  rw [shared.links i exists_scope]
  rfl

theorem Shared.read_environment (shared : session.Shared) :
    session.tables.read? session.environment = some session.interp.functions := by
  obtain ⟨functions, known⟩ := Option.isSome_iff_exists.1 shared.known
  rw [known, interp, functionsAt, known]

/-! ### What stays the same -/

/-- Scopes and tables of functions are the same; bindings, active calls and output may differ. -/
structure Keeps (session after : Session ν) : Prop where
  size : after.store.size = session.store.size
  parents : ∀ i, after.store.parent? i = session.store.parent? i
  links : after.links = session.links
  tables : after.tables = session.tables
  environment : after.environment = session.environment

theorem Keeps.refl (session : Session ν) : Keeps session session := ⟨rfl, fun _ => rfl, rfl, rfl, rfl⟩

theorem keeps_withChain (session : Session ν) (scope : Nat) (c : Chain ν) :
    Keeps session (session.withChain scope c) :=
  ⟨session.store.size_commit scope c, fun i => session.store.parent?_commit scope i c, rfl, rfl, rfl⟩

/-- What an evaluation in an interpreter with the same scopes leaves. -/
theorem keeps_withState {interp : Interpreter ν} (same : interp.store = session.store)
    (scope : Nat) (s : State ν) : Keeps session (session.withState (interp.save scope s)) := by
  refine ⟨?_, fun i => ?_, rfl, rfl, rfl⟩
  · rw [withState, Interpreter.save, Store.size_commit, same]
  · rw [withState, Interpreter.save, Store.parent?_commit, same]

theorem keeps_conclude {α : Type} {leave : Interpreter ν → Session ν} {answer : α → Answer ν}
    {out : Outcome (Interpreter ν) EvalError α}
    (h : ∀ interp, out.after? = some interp → Keeps session (leave interp)) :
    Keeps session (session.conclude leave answer out).2 := by
  cases out with
  | value a interp => exact h interp rfl
  | error e interp => exact h interp rfl
  | exhausted => exact .refl session

theorem keeps_run {α : Type} (x : Eval ν α) (answer : α → Answer ν) (scope : Nat) :
    Keeps session
      (session.conclude session.withState answer ((session.under scope).run scope x)).2 := by
  refine keeps_conclude fun interp ended => ?_
  rw [Interpreter.after?_run, Option.map_eq_some_iff] at ended
  obtain ⟨s, -, rfl⟩ := ended
  exact keeps_withState rfl scope s

variable [DecidableEq ν]

theorem keeps_execute (shared : session.Shared) (label : ν → String) (fuel : Nat) (e : Expr ν)
    (answer : Option Value → Answer ν) :
    Keeps session (session.conclude session.withInterpreter answer
      (session.interp.execute label fuel (.expr e))).2 := by
  refine keeps_conclude fun interp ended => ?_
  rw [Interpreter.execute_expr, Outcome.after?_map, Interpreter.eval, Interpreter.after?_run,
    Option.map_eq_some_iff] at ended
  obtain ⟨s, -, rfl⟩ := ended
  have moved : Keeps session (session.withState (session.interp.save Interpreter.root s)) :=
    keeps_withState rfl Interpreter.root s
  exact { moved with tables := session.tables.write_of_read? shared.read_environment }

/-! ### What one command does -/

/-- What a command does to scopes and functions. -/
structure Effect (session : Session ν) (command : Command ν) (after : Session ν) : Prop where
  shared : after.Shared
  environment : after.environment = session.environment
  /-- No scope changes its place. -/
  parents : ∀ i < session.store.size, after.store.parent? i = session.store.parent? i
  kept : command.added? session.store = none → after.store.size = session.store.size
  added : ∀ parent, command.added? session.store = some parent →
    after.store.size = session.store.size + 1 ∧ after.store.parent? session.store.size = parent
  functions : after.interp.functions =
    command.registered?.elim session.interp.functions fun fn => (session.interp.functions.define fn).2

theorem Effect.size_le (h : Effect session command after) :
    session.store.size ≤ after.store.size := by
  cases adds : command.added? session.store with
  | none => exact (h.kept adds).ge
  | some parent => exact (h.added parent adds).1 ▸ Nat.le_succ _

theorem Keeps.effect (h : Keeps session after) (shared : session.Shared)
    (registers : command.registered? = none) (adds : command.added? session.store = none) :
    Effect session command after where
  shared := by
    obtain ⟨known, size, links⟩ := shared
    refine ⟨?_, ?_, ?_⟩
    · rwa [h.tables, h.environment]
    · rwa [h.links, h.size]
    · rwa [h.size, h.links, h.environment]
  environment := h.environment
  parents i _ := h.parents i
  kept _ := h.size
  added parent h := by rw [adds] at h; cases h
  functions := by
    rw [registers, interp, interp, functionsAt, functionsAt, h.tables, h.environment]
    rfl

theorem functions_register (shared : session.Shared) (fn : FunctionDef ν) :
    (session.register session.environment fn).2.interp.functions =
      (session.interp.functions.define fn).2 := by
  unfold register interp functionsAt
  dsimp only
  rw [session.tables.read?_write shared.known]

theorem effect_register (shared : session.Shared) {fn : FunctionDef ν}
    (registers : command.registered? = some fn) (adds : command.added? session.store = none) :
    Effect session command (session.register session.environment fn).2 where
  shared := by
    refine ⟨?_, shared.size, shared.links⟩
    rw [register, session.tables.read?_write shared.known]
    rfl
  environment := rfl
  parents _ _ := rfl
  kept _ := rfl
  added parent h := by rw [adds] at h; cases h
  functions := by
    rw [registers, functions_register shared fn]
    rfl

theorem effect_withScope (shared : session.Shared) (exists_scope : scope < session.store.size)
    {added : Scope ν} (older : ∀ p, added.parent = some p → p < session.store.size) {n : Nat}
    (registers : command.registered? = none)
    (adds : command.added? session.store = some added.parent) :
    Effect session command
      (session.withScope scope (some (n, session.store.push added older))).2 := by
  unfold withScope
  rw [shared.links scope exists_scope]
  have size := session.store.size_push added older
  have parents := session.store.parent?_push added older
  refine ⟨⟨shared.known, ?_, fun i lt => ?_⟩, rfl, fun i lt => ?_, fun none => ?_,
    fun parent h => ?_, ?_⟩
  · rw [Array.size_push, shared.size, size]
  · have bound : i < session.store.size + 1 := size ▸ lt
    rw [Array.getElem?_push, shared.size]
    split
    · rfl
    · exact shared.links i (by omega)
  · rw [parents, if_neg (Nat.ne_of_lt lt)]
  · rw [adds] at none
    cases none
  · rw [adds] at h
    cases h
    exact ⟨size, by rw [parents, if_pos rfl]⟩
  · rw [registers]
    rfl

/-- What any command does to scopes and functions. -/
theorem effect_perform (label : ν → String) (fuel : Nat) (shared : session.Shared)
    (exists_scope : scopeOf command < session.store.size) :
    Effect session command (session.perform label fuel command).2 := by
  cases command with
  | execute form =>
      cases form with
      | expr e => exact (keeps_execute shared label fuel e _).effect shared rfl rfl
      | function fn => exact effect_register shared rfl rfl
  | eval scope e => exact (keeps_run _ _ scope).effect shared rfl rfl
  | write scope target v => exact (keeps_run _ _ scope).effect shared rfl rfl
  | child scope =>
      have exists_scope : scope < session.store.size := exists_scope
      rw [perform, Store.child?, dif_pos exists_scope]
      exact effect_withScope shared exists_scope _ rfl rfl
  | clone scope =>
      have exists_scope : scope < session.store.size := exists_scope
      rw [perform, Store.clone?, dif_pos exists_scope]
      exact effect_withScope shared exists_scope _ rfl
        (congrArg some (session.store.parent?_of_lt exists_scope))
  | define scope x v => exact (keeps_withChain session scope _).effect shared rfl rfl
  | assign scope x v =>
      rw [perform]
      split
      · exact (keeps_withChain session scope _).effect shared rfl rfl
      · exact (Keeps.refl session).effect shared rfl rfl
  | exchange scope x v =>
      rw [perform]
      split
      · exact (keeps_withChain session scope _).effect shared rfl rfl
      · exact (Keeps.refl session).effect shared rfl rfl
  | defineFunction scope fn =>
      rw [perform, shared.links scope exists_scope]
      exact effect_register shared rfl rfl
  | registerFunction fn => exact effect_register shared rfl rfl
  | getFunction scope f =>
      rw [perform]
      split
      · exact (Keeps.refl session).effect shared rfl rfl
      · exact Keeps.effect ⟨rfl, fun _ => rfl, rfl, rfl, rfl⟩ shared rfl rfl
  | writePlace scope place v => exact (keeps_withChain session scope _).effect shared rfl rfl
  | bindArguments scope f values =>
      rw [perform]
      split
      · exact (Keeps.refl session).effect shared rfl rfl
      · split
        · exact (Keeps.refl session).effect shared rfl rfl
        · exact (keeps_withChain session scope _).effect shared rfl rfl
  | _ => exact (Keeps.refl session).effect shared rfl rfl

theorem effect_step (label : ν → String) (fuel : Nat) (shared : session.Shared)
    (exists_scope : scopeOf command < session.store.size) :
    Effect session command (session.step label fuel command).2 := by
  rw [step, if_pos exists_scope]
  exact effect_perform label fuel shared exists_scope

/-! ### Runs -/

/-- Commands on scopes that exist, carried out one after another. Names may get other texts and
evaluations other fuel each time. -/
inductive Runs (start : Session ν) : List (Command ν) → Session ν → Prop
  | refl : Runs start [] start
  | step {commands : List (Command ν)} {session : Session ν} (label : ν → String) (fuel : Nat)
      (command : Command ν) : Runs start commands session → scopeOf command < session.store.size →
      Runs start (commands ++ [command]) (session.step label fuel command).2

/-- A command of a run added the scope, in the given session and under the given parent. -/
structure AddedBy (start : Session ν) (commands : List (Command ν)) (i : Nat) (parent : Option Nat)
    (command : Command ν) (session : Session ν) : Prop where
  runs : ∃ before rest, commands = before ++ command :: rest ∧ Runs start before session
  exists_scope : scopeOf command < session.store.size
  number : i = session.store.size
  adds : command.added? session.store = some parent

variable {start : Session ν} {commands : List (Command ν)}

theorem AddedBy.append {parent : Option Nat} (h : AddedBy start commands i parent command session)
    (next : Command ν) : AddedBy start (commands ++ [next]) i parent command session := by
  obtain ⟨before, rest, rfl, runs⟩ := h.runs
  exact { h with runs := ⟨before, rest ++ [next], by simp, runs⟩ }

namespace Runs

theorem shared (runs : Runs start commands session) (shared : start.Shared) : session.Shared := by
  induction runs with
  | refl => exact shared
  | step label fuel command _ exists_scope ih => exact (effect_step label fuel ih exists_scope).shared

/-- What the effects of commands keep, a run keeps. -/
@[elab_as_elim] theorem induction_on_effects {motive : List (Command ν) → Session ν → Prop}
    (runs : Runs start commands session) (shared : start.Shared) (base : motive [] start)
    (step : ∀ {commands session command after}, Runs start commands session →
      scopeOf command < session.store.size → Effect session command after →
      motive commands session → motive (commands ++ [command]) after) :
    motive commands session := by
  induction runs with
  | refl => exact base
  | step label fuel command runs exists_scope ih =>
      exact step runs exists_scope (effect_step label fuel (runs.shared shared) exists_scope) ih

/-- Scopes stay where they are. -/
theorem parents (runs : Runs start commands session) (shared : start.Shared) :
    start.store.size ≤ session.store.size ∧
      ∀ i < start.store.size, session.store.parent? i = start.store.parent? i := by
  refine runs.induction_on_effects shared ⟨Nat.le_refl _, fun _ _ => rfl⟩ fun _ _ effect ih => ?_
  refine ⟨Nat.le_trans ih.1 effect.size_le, fun i lt => ?_⟩
  rw [effect.parents i (Nat.lt_of_lt_of_le lt ih.1), ih.2 i lt]

theorem environment (runs : Runs start commands session) (shared : start.Shared) :
    session.environment = start.environment :=
  runs.induction_on_effects shared rfl fun _ _ effect same => effect.environment.trans same

/-- Definitions are recorded in the order in which they are registered. -/
theorem records (runs : Runs start commands session) (shared : start.Shared)
    (unused : start.interp.functions.Records []) :
    session.interp.functions.Records (commands.filterMap Command.registered?) := by
  refine runs.induction_on_effects shared unused fun {commands _ command _} _ _ effect ih => ?_
  rw [effect.functions, List.filterMap_append]
  cases registers : command.registered? with
  | none => simpa [registers] using ih
  | some fn => simpa [registers] using ih.define fn

/-- Every scope that was not there at the start was added by a command, under its parent. -/
theorem addedBy (runs : Runs start commands session) (shared : start.Shared) :
    ∀ i, start.store.size ≤ i → i < session.store.size → ∃ command between,
      AddedBy start commands i (session.store.parent? i) command between := by
  refine runs.induction_on_effects shared (fun i le lt => absurd lt (Nat.not_lt.2 le))
    fun {commands session command after} runs exists_scope effect ih i le lt => ?_
  by_cases old : i < session.store.size
  · obtain ⟨creator, between, added⟩ := ih i le old
    rw [effect.parents i old]
    exact ⟨creator, between, added.append command⟩
  · cases adds : command.added? session.store with
    | none => exact absurd (effect.kept adds ▸ lt) old
    | some parent =>
        obtain ⟨size, same⟩ := effect.added parent adds
        have number : i = session.store.size := by omega
        rw [number, same]
        exact ⟨command, session, ⟨commands, [], rfl, runs⟩, exists_scope, rfl, adds⟩

end Runs

/-! ### A fresh environment -/

omit [DecidableEq ν] in
theorem shared_new (interp : Interpreter ν) : (new interp).Shared where
  known := rfl
  size := Array.size_replicate
  links i lt := by
    have exists_scope : i < interp.store.size := lt
    unfold new
    exact Array.getElem?_replicate.trans (if_pos exists_scope)

/-- Where the scopes of a session come from. -/
structure Lineage (start : Session ν) (commands : List (Command ν)) (session : Session ν) :
    Prop where
  /-- The parent of a scope was there before the scope was added. -/
  older : ∀ i p, session.store.parent? i = some p → p < i ∧
    ∃ command before, AddedBy start commands i (some p) command before ∧ p < before.store.size
  /-- Scopes keep their parents, whatever is carried out next. -/
  fixed : ∀ rest later, Runs session rest later → session.store.size ≤ later.store.size ∧
    ∀ i < session.store.size, later.store.parent? i = session.store.parent? i
  /-- The ancestors of a scope end at one without a parent. It is the root, or was added as the copy
  of a scope without a parent. -/
  rootOf : ∀ i < session.store.size,
    session.store.rootOf i ∈ session.store.path i ∧
    session.store.parent? (session.store.rootOf i) = none ∧
    (session.store.rootOf i = Interpreter.root ∨
      ∃ source before,
        AddedBy start commands (session.store.rootOf i) none (.clone source) before ∧
        before.store.parent? source = none)

/-- What scopes and the environment know of functions. -/
structure Registry (start : Session ν) (commands : List (Command ν)) (session : Session ν) :
    Prop where
  environment : session.environment = start.environment
  /-- The table of a scope is that of the environment. -/
  shared : ∀ i < session.store.size, session.links[i]? = some session.environment ∧
    session.functionsOf i = session.interp.functions
  /-- Each name stands for the definition registered last under it. -/
  records : session.interp.functions.Records (commands.filterMap Command.registered?)
  size : session.interp.functions.size =
    ((commands.filterMap Command.registered?).map FunctionDef.name).dedup.length
  /-- A registration through a scope gives the definition it displaces. -/
  displaced : ∀ (label : ν → String) (fuel : Nat) (fn : FunctionDef ν), ∀ i < session.store.size,
    (session.step label fuel (.defineFunction i fn)).1 =
      .replaced ((session.interp.functions.get? fn.name).map Definition.fn)
  /-- A registration through the environment tells whether it displaces one. -/
  displaces : ∀ (label : ν → String) (fuel : Nat) (fn : FunctionDef ν),
    (session.step label fuel (.registerFunction fn)).1 =
      .replacedAny (session.interp.functions.get? fn.name).isSome

/-- The scopes of a run that starts with a single scope. -/
theorem Runs.lineage (runs : Runs start commands session) (shared : start.Shared)
    (single : start.store.size = 1) : Lineage start commands session := by
  have shared' := runs.shared shared
  have added := runs.addedBy shared
  refine ⟨fun i p parent => ?_, fun rest later runs' => runs'.parents shared', fun i lt => ?_⟩
  · have older := session.store.parent?_lt parent
    obtain ⟨command, before, origin⟩ :=
      added i (by omega) (session.store.lt_size_of_parent? parent)
    exact ⟨older, command, before, parent ▸ origin, origin.number ▸ older⟩
  · have mem := session.store.rootOf_mem_path i
    have alone := session.store.parent?_rootOf i
    refine ⟨mem, alone, ?_⟩
    by_cases first : session.store.rootOf i = Interpreter.root
    · exact .inl first
    -- any other scope was added, and not under a parent
    · have positive : 0 < session.store.rootOf i := Nat.pos_of_ne_zero first
      obtain ⟨command, before, origin⟩ := added (session.store.rootOf i) (by omega)
        (Nat.lt_of_le_of_lt (session.store.le_of_mem_path mem) lt)
      rw [alone] at origin
      have adds := origin.adds
      cases command with
      | clone source => exact .inr ⟨source, before, origin, Option.some.inj adds⟩
      | _ => cases adds

/-- The functions of a run that starts without any. -/
theorem Runs.registry (runs : Runs start commands session) (shared : start.Shared)
    (root : Interpreter.root < start.store.size) (unused : start.interp.functions.Records []) :
    Registry start commands session := by
  have shared' := runs.shared shared
  have records := runs.records shared unused
  refine ⟨runs.environment shared, fun i lt => ⟨shared'.links i lt, shared'.functionsOf lt⟩, records,
    records.size, fun label fuel fn i lt => ?_, fun label fuel fn => ?_⟩
  · have exists_scope : scopeOf (.defineFunction i fn) < session.store.size := lt
    rw [Session.step, if_pos exists_scope, perform, shared'.links i lt]
    rfl
  · have exists_scope : scopeOf (.registerFunction fn) < session.store.size :=
      Nat.lt_of_lt_of_le root (runs.parents shared).1
    rw [Session.step, if_pos exists_scope]
    rfl

/-- From a fresh environment on, whatever commands are carried out on whatever scopes: scopes have
older parents for good, up to the root or to a copy of a scope without a parent; and they share one
table of functions, which knows exactly the definitions registered last. -/
theorem scopes_and_functions (limit : Option Nat) (printer : Printer)
    {commands : List (Command ν)} {session : Session ν}
    (runs : Runs (new (Interpreter.new limit printer)) commands session) :
    Lineage (new (Interpreter.new limit printer)) commands session ∧
      Registry (new (Interpreter.new limit printer)) commands session := by
  have shared := shared_new (Interpreter.new (ν := ν) limit printer)
  exact ⟨runs.lineage shared rfl, runs.registry shared Nat.zero_lt_one FunctionTable.records_new⟩

/-- A copy of the root, a scope under it, a call that fails for want of a function, and two functions
of one name: one registered through the new scope, the other through the environment. -/
theorem scopes_and_functions_copied :
    let commands : List (Command Nat) := [.clone 0, .child 1, .execute (.expr (.call 9 [])),
      .defineFunction 2 ⟨9, [], []⟩, .registerFunction ⟨9, [4], []⟩]
    ∃ session, Runs (new (Interpreter.new none .silent)) commands session ∧
      session.store.rootOf 2 = 1 ∧ session.store.parent? 1 = none ∧
      (session.functionsOf 2).get? 9 = some ⟨1, ⟨9, [4], []⟩⟩ ∧
      session.interp.functions.size = 1 ∧
      (session.step toString 5 (.defineFunction 0 ⟨9, [], []⟩)).1 = .replaced (some ⟨9, [4], []⟩) := by
  intro commands
  let fresh : Session Nat := new (Interpreter.new none .silent)
  let session := commands.foldl (fun s command => (s.step toString 5 command).2) fresh
  have nothing : Runs fresh [] fresh := .refl
  have copied := nothing.step toString 5 (.clone 0) (by decide +kernel)
  have below := copied.step toString 5 (.child 1) (by decide +kernel)
  have failed := below.step toString 5 (.execute (.expr (.call 9 []))) (by decide +kernel)
  have defined := failed.step toString 5 (.defineFunction 2 ⟨9, [], []⟩) (by decide +kernel)
  have runs : Runs fresh commands session :=
    defined.step toString 5 (.registerFunction ⟨9, [4], []⟩) (by decide +kernel)
  obtain ⟨lineage, registry⟩ := scopes_and_functions none .silent runs
  have outermost : session.store.rootOf 2 = 1 := by decide +kernel
  have root := (lineage.rootOf 2 (by decide +kernel)).2.1
  have known : session.interp.functions.get? 9 = some ⟨1, ⟨9, [4], []⟩⟩ := by
    refine (registry.records.known 9 _).2 ⟨rfl, rfl, fun k fn later found => ?_⟩
    exact absurd (List.getElem?_eq_some_iff.1 found).1 (Nat.not_lt.2 later)
  refine ⟨session, runs, outermost, outermost ▸ root, ?_, registry.size, ?_⟩
  · rw [(registry.shared 2 (by decide +kernel)).2, known]
  · rw [registry.displaced toString 5 _ 0 (by decide +kernel), known]
    rfl

end Session

end MiniLisp
