import MiniLisp.Handle
import MiniLisp.Interpreter

/-!
Sessions: commands to one interpreter and the answers they get. A command that fails leaves the
session usable. A scope is named by its number; a command on a scope that does not exist is refused.
Each scope has a handle of a table of functions, which a scope made from it gets a copy of.
-/

namespace MiniLisp

variable {ν : Type} [DecidableEq ν]

inductive Command (ν : Type) where
  | execute (form : Form ν)
  | eval (scope : Nat) (e : Expr ν)
  | write (scope : Nat) (target : Target ν) (v : Value)
  | child (scope : Nat)
  | clone (scope : Nat)
  | define (scope : Nat) (x : ν) (v : Value)
  | lookup (scope : Nat) (x : ν)
  | contains (scope : Nat) (x : ν)
  | assign (scope : Nat) (x : ν) (v : Value)
  | typeName (scope : Nat) (x : ν)
  | exchange (scope : Nat) (x : ν) (v : Value)
  | isRoot (scope : Nat)
  | parent (scope : Nat)
  | rootOf (scope : Nat)
  | same (scope other : Nat)
  | defineFunction (scope : Nat) (fn : FunctionDef ν)
  | registerFunction (fn : FunctionDef ν)
  | getFunction (scope : Nat) (f : ν)
  | findFunction (f : ν)
  | functions (scope : Nat) (f : ν)
  | readPlace (scope : Nat) (place : Place ν)
  | writePlace (scope : Nat) (place : Place ν) (v : Value)
  | bindArguments (scope : Nat) (f : ν) (values : List Value)

inductive Answer (ν : Type) where
  | value (v : Value)
  | failed (e : EvalError)
  /-- The evaluation ran out of fuel. -/
  | unfinished
  /-- There is no such scope or function. -/
  | refused
  | defined
  | done
  | undefined
  | scope (i : Nat)
  | stored (v : Option Value)
  | contains (b : Bool)
  | typeName (t : Option String)
  | exchanged (old : Option Value)
  | isRoot (b : Bool)
  | parent (p : Option Nat)
  | root (i : Nat)
  | same (scopes functions : Bool)
  | replaced (old : Option (FunctionDef ν))
  | replacedAny (b : Bool)
  /-- A definition, and the first of the definitions handed out before that is the same one. -/
  | function (found : Option (FunctionDef ν × Option Nat))
  | foundFunction (b : Bool)
  | functions (size : Nat) (isEmpty contains : Bool)

/-- The scopes of an environment, the tables of functions that they lead to, the active calls and the
printer. Definitions that are handed out are remembered by their serial numbers. -/
structure Session (ν : Type) where
  store : Store ν
  /-- The table of functions that each scope leads to. -/
  links : Array Handle
  tables : Heap (FunctionTable ν)
  /-- The table that the environment itself leads to. -/
  environment : Handle
  stack : CallStack ν
  printer : Printer
  handles : List Nat

namespace Session

/-- All scopes of an interpreter lead to its one table. -/
def new (interp : Interpreter ν) : Session ν :=
  let (environment, tables) := Heap.empty.alloc interp.functions
  { store := interp.store
    links := Array.replicate interp.store.size environment
    tables, environment
    stack := interp.stack
    printer := interp.printer
    handles := [] }

/-- The scope that a command works in. -/
def scopeOf : Command ν → Nat
  | .execute _ => Interpreter.root
  | .eval s _ => s
  | .write s _ _ => s
  | .child s => s
  | .clone s => s
  | .define s _ _ => s
  | .lookup s _ => s
  | .contains s _ => s
  | .assign s _ _ => s
  | .typeName s _ => s
  | .exchange s _ _ => s
  | .isRoot s => s
  | .parent s => s
  | .rootOf s => s
  | .same s t => max s t
  | .defineFunction s _ => s
  | .registerFunction _ => Interpreter.root
  | .getFunction s _ => s
  | .findFunction _ => Interpreter.root
  | .functions s _ => s
  | .readPlace s _ => s
  | .writePlace s _ _ => s
  | .bindArguments s _ _ => s

/-- The functions behind a handle. -/
def functionsAt (session : Session ν) (table : Handle) : FunctionTable ν :=
  match session.tables.read? table with
  | some functions => functions
  | none => FunctionTable.new

/-- The functions that a scope leads to. -/
def functionsOf (session : Session ν) (scope : Nat) : FunctionTable ν :=
  match session.links[scope]? with
  | some table => session.functionsAt table
  | none => FunctionTable.new

/-- The interpreter with the functions of the environment. -/
def interp (session : Session ν) : Interpreter ν :=
  ⟨session.store, session.functionsAt session.environment, session.stack, session.printer⟩

/-- The interpreter with the functions that a scope leads to. -/
def under (session : Session ν) (scope : Nat) : Interpreter ν :=
  { session.interp with functions := session.functionsOf scope }

/-- What an evaluation leaves. It changes no table of functions. -/
def withState (session : Session ν) (interp : Interpreter ν) : Session ν :=
  { session with store := interp.store, stack := interp.stack, printer := interp.printer }

def withInterpreter (session : Session ν) (interp : Interpreter ν) : Session ν :=
  { session.withState interp with
    tables := session.tables.write session.environment interp.functions }

def withStore (session : Session ν) (store : Store ν) : Session ν := { session with store }

/-- Adds a scope that leads to the same table as a given one. -/
def withScope (session : Session ν) (scope : Nat) (created : Option (Nat × Store ν)) :
    Answer ν × Session ν :=
  match created, session.links[scope]? with
  | some (i, store), some table =>
      (.scope i, { session with store, links := session.links.push table })
  | _, _ => (.refused, session)

/-- Registers a definition in a table, and gives the definition it displaces. -/
def register (session : Session ν) (table : Handle) (fn : FunctionDef ν) :
    Option (Definition ν) × Session ν :=
  let (old, functions) := (session.functionsAt table).define fn
  (old, { session with tables := session.tables.write table functions })

/-- Puts a changed chain back. -/
def withChain (session : Session ν) (scope : Nat) (c : Chain ν) : Session ν :=
  session.withStore (session.store.commit scope c)

/-- The answer to an evaluation, and what it leaves of the session. -/
def conclude {α : Type} (session : Session ν) (leave : Interpreter ν → Session ν)
    (answer : α → Answer ν) : Outcome (Interpreter ν) EvalError α → Answer ν × Session ν
  | .value a interp => (answer a, leave interp)
  | .error e interp => (.failed e, leave interp)
  | .exhausted => (.unfinished, session)

/-- The answer to a pure check; an error raised outside of any call has no backtrace. -/
def report (answer : Value → Answer ν) : Except Cause Value → Answer ν
  | .ok v => answer v
  | .error cause => .failed (.ofCause cause)

/-- Carries out a command on a scope that exists. -/
def perform (label : ν → String) (fuel : Nat) (session : Session ν) :
    Command ν → Answer ν × Session ν
  | .execute form =>
      session.conclude session.withInterpreter (fun v => match v with
        | some v => .value v
        | none => .defined) (session.interp.execute label fuel form)
  | .eval scope e =>
      session.conclude session.withState .value ((session.under scope).eval label fuel scope e)
  | .write scope target v =>
      session.conclude session.withState .value
        ((session.under scope).write label fuel scope target v)
  | .child scope => session.withScope scope (session.store.child? scope)
  | .clone scope => session.withScope scope (session.store.clone? scope)
  | .define scope x v => (.done, session.withState (session.interp.define scope x v))
  | .lookup scope x => (.stored (session.interp.lookup scope x), session)
  | .contains scope x => (.contains ((session.store.view scope).contains x), session)
  | .assign scope x v =>
      match (session.store.view scope).assign? x v with
      | some c => (.done, session.withChain scope c)
      | none => (.undefined, session)
  | .typeName scope x =>
      (.typeName ((session.store.view scope).inspect x Value.typeName), session)
  | .exchange scope x v =>
      match (session.store.view scope).modify? x fun old => (old, v) with
      | some (old, c) => (.exchanged (some old), session.withChain scope c)
      | none => (.exchanged none, session)
  | .isRoot scope => (.isRoot (session.store.parent? scope).isNone, session)
  | .parent scope => (.parent (session.store.parent? scope), session)
  | .rootOf scope => (.root (session.store.rootOf scope), session)
  | .same scope other =>
      (.same (scope = other) (session.links[scope]? = session.links[other]?), session)
  | .defineFunction scope fn =>
      match session.links[scope]? with
      | some table =>
          let (old, session) := session.register table fn
          (.replaced (old.map Definition.fn), session)
      | none => (.refused, session)
  | .registerFunction fn =>
      let (old, session) := session.register session.environment fn
      (.replacedAny old.isSome, session)
  | .getFunction scope f =>
      match (session.functionsOf scope).get? f with
      | none => (.function none, session)
      | some found =>
          (.function (some (found.fn, session.handles.findIdx? (· == found.serial))),
            { session with handles := session.handles ++ [found.serial] })
  | .findFunction f => (.foundFunction (session.interp.functions.get? f).isSome, session)
  | .functions scope f =>
      let table := session.functionsOf scope
      (.functions table.size table.isEmpty (table.contains f), session)
  | .readPlace scope place =>
      (report .value (place.read label (session.store.view scope)), session)
  | .writePlace scope place v =>
      let (r, c) := place.write label v (session.store.view scope)
      (report .value r, session.withChain scope c)
  | .bindArguments scope f values =>
      match (session.functionsOf scope).get? f with
      | none => (.refused, session)
      | some found =>
          match found.fn.checkArity label values.length with
          | .error cause => (.failed (.ofCause cause), session)
          | .ok () =>
              let c := (found.fn.arguments values).foldl (fun c b => c.define b.1 b.2)
                (session.store.view scope)
              (.done, session.withChain scope c)

/-- Carries out a command. -/
def step (label : ν → String) (fuel : Nat) (session : Session ν) (command : Command ν) :
    Answer ν × Session ν :=
  if scopeOf command < session.store.size then session.perform label fuel command
  else (.refused, session)

end Session

end MiniLisp
