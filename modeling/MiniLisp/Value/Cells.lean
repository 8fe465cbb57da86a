import MiniLisp.Error
import MiniLisp.Value.Basic

/-!
Arrays of scalars: making them and reaching their elements. An index is any integer; one outside the
array is refused with the size it missed. Main statement: an element is written exactly where it is
read (`set?`, `get?` and `slot?` fail together).
-/

namespace MiniLisp.Cells

/-- The most elements an array can have: as many as fit the address space at 24 bytes each. -/
def maxSize : Nat := (Nat.pow 2 63 - 1) / 24

/-- An array of the given size that holds `NIL` everywhere. -/
def make (size : Nat) : Array Scalar := Array.replicate size .nil

def make? (size : Nat) : Except Cause (Array Scalar) :=
  if maxSize < size then .error (.arrayTooLarge size) else .ok (make size)

/-- The position that an index names. -/
def slot? (cells : Array Scalar) (index : Int64) : Except Cause (Fin cells.size) :=
  if h : 0 ≤ index.toInt ∧ index.toInt.toNat < cells.size then .ok ⟨index.toInt.toNat, h.2⟩
  else .error (.indexOutOfRange index cells.size)

def get? (cells : Array Scalar) (index : Int64) : Except Cause Scalar :=
  match slot? cells index with
  | .ok slot => .ok cells[slot]
  | .error e => .error e

/-- The array with another scalar at a position. -/
def put (cells : Array Scalar) (slot : Fin cells.size) (s : Scalar) : Array Scalar :=
  cells.set slot s

def set? (cells : Array Scalar) (index : Int64) (s : Scalar) : Except Cause (Array Scalar) :=
  match slot? cells index with
  | .ok slot => .ok (put cells slot s)
  | .error e => .error e

/-- The array with one scalar everywhere. -/
def fill (cells : Array Scalar) (s : Scalar) : Array Scalar := Array.replicate cells.size s

/-- The elements in the opposite order. -/
def reverse (cells : Array Scalar) : Array Scalar := cells.reverse

theorem get?_isOk_iff_slot? (cells : Array Scalar) (index : Int64) :
    (get? cells index).isOk = (slot? cells index).isOk := by
  unfold get?
  cases slot? cells index <;> rfl

theorem set?_isOk_iff_slot? (cells : Array Scalar) (index : Int64) (s : Scalar) :
    (set? cells index s).isOk = (slot? cells index).isOk := by
  unfold set?
  cases slot? cells index <;> rfl

end MiniLisp.Cells
