import MiniLisp.Dictionary
import MiniLisp.Syntax.Basic

/-!
The table of functions. A name stands for the definition that was registered last. Each registration
has a serial number of its own, so a definition that is registered again is told from the first.
-/

namespace MiniLisp

variable {ν : Type}

/-- A registered definition. -/
structure Definition (ν : Type) where
  serial : Nat
  fn : FunctionDef ν

structure FunctionTable (ν : Type) where
  definitions : Dictionary ν (Definition ν)
  nextSerial : Nat

namespace FunctionTable

variable [DecidableEq ν]

def new : FunctionTable ν := ⟨∅, 0⟩

/-- The definition registered last under a name. -/
def get? (table : FunctionTable ν) (f : ν) : Option (Definition ν) := table.definitions.get? f

def contains (table : FunctionTable ν) (f : ν) : Bool := table.definitions.contains f

def size (table : FunctionTable ν) : Nat := table.definitions.size

def isEmpty (table : FunctionTable ν) : Bool := table.size = 0

/-- Registers a definition under its own name, and gives the definition it displaces. -/
def define (table : FunctionTable ν) (fn : FunctionDef ν) :
    Option (Definition ν) × FunctionTable ν :=
  (table.get? fn.name,
    ⟨table.definitions.set fn.name ⟨table.nextSerial, fn⟩, table.nextSerial + 1⟩)

theorem get?_define (table : FunctionTable ν) (fn : FunctionDef ν) (f : ν) :
    (table.define fn).2.get? f =
      if fn.name = f then some ⟨table.nextSerial, fn⟩ else table.get? f :=
  Dictionary.get?_set table.definitions fn.name f _

end FunctionTable

end MiniLisp
