import MiniLisp.Error
import MiniLisp.Scope.Chain
import MiniLisp.Value.Cells

/-!
Places: what a target names once its index is known. A variable that is not bound can be written,
which declares it in the current scope; an element can be written only where it can be read, and only
with a scalar. A write that fails leaves the chain as it was.
-/

namespace MiniLisp

variable {ν : Type}

inductive Place (ν : Type) where
  | var (x : ν)
  | element (x : ν) (index : Int64)
  deriving DecidableEq

namespace Place

/-- The element of the value that `name` stands for. -/
def readElement (name : String) (index : Int64) : Value → Except Cause Value
  | .array cells =>
      match Cells.get? cells index with
      | .ok s => .ok (.scalar s)
      | .error e => .error e
  | .scalar _ => .error (.notAnArray name)

/-- Stores an element in the value that `name` stands for. The index is checked before the value. -/
def storeElement (name : String) (index : Int64) (v : Value) :
    Value → Except Cause Unit × Value
  | .array cells =>
      match Cells.slot? cells index with
      | .error e => (.error e, .array cells)
      | .ok slot =>
          match v with
          | .scalar s => (.ok (), .array (Cells.put cells slot s))
          | .array _ => (.error .cannotAssignArrayElement, .array cells)
  | .scalar s => (.error (.notAnArray name), .scalar s)

variable [DecidableEq ν]

def read (label : ν → String) (c : Chain ν) : Place ν → Except Cause Value
  | var x =>
      match c.lookup x with
      | some v => .ok v
      | none => .error (.undefinedVariable (label x))
  | element x index =>
      match c.inspect x (readElement (label x) index) with
      | some r => r
      | none => .error (.undefinedVariable (label x))

/-- The written value, and the chain after the write. -/
def write (label : ν → String) (v : Value) (c : Chain ν) :
    Place ν → Except Cause Value × Chain ν
  | var x =>
      if c.contains x then
        match c.assign? x v with
        | some c' => (.ok v, c')
        | none => (.error (.assignToUndefined (label x)), c)
      else (.ok v, c.define x v)
  | element x index =>
      match c.modify? x (storeElement (label x) index v) with
      | some (.ok (), c') => (.ok v, c')
      | some (.error e, c') => (.error e, c')
      | none => (.error (.undefinedVariable (label x)), c)

end Place

end MiniLisp
