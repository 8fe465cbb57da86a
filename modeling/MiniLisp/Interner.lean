import MiniLisp.Dictionary
import MiniLisp.Syntax.Names

/-!
Interning: every string gets a small number once, and keeps it. The empty string is there from the
start. A vector leads from names to strings and a dictionary back.
-/

namespace MiniLisp

/-- A string that was interned, known by the order of its first appearance. -/
structure Name where
  raw : Nat
  deriving DecidableEq

/-- The name of the empty string. -/
def Name.empty : Name := ⟨0⟩

/-- The order of first appearance. -/
def Name.before (a b : Name) : Bool := a.raw < b.raw

structure Interner where
  strings : Array String
  index : Dictionary String Name

namespace Interner

def new : Interner := ⟨#[""], (∅ : Dictionary String Name).set "" .empty⟩

/-- The name of a string, and the interner that knows it. -/
def intern (table : Interner) (s : String) : Name × Interner :=
  match table.index.get? s with
  | some name => (name, table)
  | none =>
      let name := ⟨table.strings.size⟩
      (name, ⟨table.strings.push s, table.index.set s name⟩)

/-- The string of a name; the empty string for a name that was not handed out. -/
def lookup (table : Interner) (name : Name) : String := table.strings[name.raw]?.getD ""

def size (table : Interner) : Nat := table.strings.size

/-- Nothing but the empty string was interned. -/
def isEmpty (table : Interner) : Bool := table.size ≤ 1

def internAll (table : Interner) (ss : List String) : Interner :=
  ss.foldl (fun table s => (table.intern s).2) table

/-- The name that a string has, or would get next. -/
def nameOf (table : Interner) (s : String) : Name := (table.intern s).1

/-! Building syntax: its strings are interned in the order of `names`, the parts of a node before the
node itself, and then stand for their names. -/

def expr (table : Interner) (e : Expr String) : Expr Name × Interner :=
  let table := table.internAll e.names
  (e.map table.nameOf, table)

def target (table : Interner) (t : Target String) : Target Name × Interner :=
  let table := table.internAll t.names
  (t.map table.nameOf, table)

def function (table : Interner) (fn : FunctionDef String) : FunctionDef Name × Interner :=
  let table := table.internAll fn.names
  (fn.map table.nameOf, table)

def form (table : Interner) (form : Form String) : Form Name × Interner :=
  let table := table.internAll form.names
  (form.map table.nameOf, table)

/-- Builds forms one after another. -/
def forms (table : Interner) : List (Form String) → List (Form Name) × Interner
  | [] => ([], table)
  | f :: rest =>
      let (built, table) := table.form f
      let (others, table) := table.forms rest
      (built :: others, table)

end Interner

end MiniLisp
