import MiniLisp.Handle
import MiniLisp.Interner
import MiniLisp.Interpreter
import MiniLisp.Value.Text

/-!
Texts that show the parts of a running interpreter to someone who inspects it: names by their numbers,
tables by their sizes, shared cells by their contents.
-/

namespace MiniLisp.Inspect

/-- A braced group with its head. -/
def group (head inside : String) : String := head ++ " \x7b " ++ inside ++ " \x7d"

def name (n : Name) : String := s!"Name({n.raw})"

def interner (table : Interner) : String := group "StringInterner" s!"len: {table.size}"

def sharedInterner (table : Interner) : String := s!"SharedInterner({interner table})"

/-- A shared value that does not change. -/
def shared (inside : String) : String := s!"Shared({inside})"

/-- A shared table. -/
def registry (inside : String) : String := s!"SharedMutableRegistry({inside})"

/-- A shared scope. -/
def scopeCell (inside : String) : String :=
  "LocalScope(" ++ group "RefCell" s!"value: {inside}" ++ ")"

def scalar : Scalar → String
  | .nil => "Nil"
  | .t => "T"
  | .int n => s!"Int({n.toInt})"
  | .float x => "Float(" ++ Scalar.toText (.float x) ++ ")"
  | .text s => "Str(" ++ s.quote ++ ")"

def value : Value → String
  | .scalar s => s!"Scalar({scalar s})"
  | .array cells => "Array([" ++ ", ".intercalate (cells.toList.map scalar) ++ "])"

def braced (items : List String) : String := "\x7b" ++ ", ".intercalate items ++ "\x7d"

def bindings (b : Bindings Name) : String :=
  braced (b.entries.map fun entry => name entry.1 ++ ": " ++ value entry.2)

def functionTable (table : FunctionTable Name) : String :=
  group "FunctionTable" ("functions: " ++ braced (table.definitions.keys.map name))

def scope (functions : FunctionTable Name) (s : Scope Name) : String :=
  let parent := match s.parent with
    | none => "None"
    | some p => s!"Some({p})"
  group "Scope" (s!"bindings: {bindings s.bindings}, parent: {parent}, functions: " ++
    registry (functionTable functions))

/-- The root scope and the number of functions. -/
def environment (interp : Interpreter Name) : String :=
  let root := scope interp.functions ⟨interp.store.bindings Interpreter.root, none⟩
  group "Environment" (s!"root: {scopeCell root}, functions: {interp.functions.size}")

end MiniLisp.Inspect
