/-!
Deep recursion. A level that finds less room than the reserve continues on a new segment of stack.
-/

namespace MiniLisp.Depth

/-- The least number of bytes that a level of recursion has to find free. -/
def reserve : Nat := 128 * 1024

/-- The size of a new segment of stack in bytes. -/
def segment : Nat := 2 * 1024 * 1024

/-- The sum of the levels of a recursion, one call for each. -/
def levelSum : Nat → Nat
  | 0 => 0
  | n + 1 => (n + 1) + levelSum n

end MiniLisp.Depth
