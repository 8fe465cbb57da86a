/-!
Shared cells. A handle leads to a cell of a heap; copies of a handle lead to the same cell and see each
other's writes, and handles of two cells differ even where the cells hold equal contents.
-/

namespace MiniLisp

variable {α : Type}

structure Handle where
  address : Nat
  deriving DecidableEq

structure Heap (α : Type) where
  cells : Array α

namespace Heap

def empty : Heap α := ⟨#[]⟩

/-- A new cell with the given contents. -/
def alloc (heap : Heap α) (a : α) : Handle × Heap α := (⟨heap.cells.size⟩, ⟨heap.cells.push a⟩)

def read? (heap : Heap α) (h : Handle) : Option α := heap.cells[h.address]?

def write (heap : Heap α) (h : Handle) (a : α) : Heap α := ⟨heap.cells.setIfInBounds h.address a⟩

theorem read?_alloc (heap : Heap α) (a : α) : (heap.alloc a).2.read? (heap.alloc a).1 = some a := by
  simp [alloc, read?]

theorem read?_write (heap : Heap α) {h : Handle} (known : (heap.read? h).isSome) (b : α) :
    (heap.write h b).read? h = some b := by
  obtain ⟨a, known⟩ := Option.isSome_iff_exists.1 known
  obtain ⟨bound, -⟩ := Array.getElem?_eq_some_iff.1 known
  simp [write, read?, bound]

theorem write_of_read? (heap : Heap α) {h : Handle} {a : α} (known : heap.read? h = some a) :
    heap.write h a = heap := by
  obtain ⟨bound, same⟩ := Array.getElem?_eq_some_iff.1 known
  refine congrArg Heap.mk (Array.ext (by simp) fun i _ _ => ?_)
  rw [Array.getElem_setIfInBounds]
  split
  · next here => simp [← same, here]
  · rfl

theorem read?_write_of_ne (heap : Heap α) {h g : Handle} (ne : h ≠ g) (a : α) :
    (heap.write h a).read? g = heap.read? g := by
  have : h.address ≠ g.address := fun e => ne (by cases h; cases g; simp_all)
  simp [write, read?, Array.getElem?_setIfInBounds_ne this]

end Heap

end MiniLisp
