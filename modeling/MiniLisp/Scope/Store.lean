import MiniLisp.Scope.Chain

/-!
The scopes of a program, numbered in the order of their creation. The parent of a scope is older than
the scope, so following parents ends at a scope without one. A scope is looked at as the chain of its
bindings out to the root (`view`), and a changed chain is put back where it came from (`commit`).
-/

namespace MiniLisp

variable {ν : Type}

structure Scope (ν : Type) where
  bindings : Bindings ν
  parent : Option Nat

structure Store (ν : Type) where
  scopes : Array (Scope ν)
  parent_lt : ∀ (i : Nat) (h : i < scopes.size) (p : Nat), scopes[i].parent = some p → p < i

namespace Store

/-- A single scope without a parent. -/
def new : Store ν where
  scopes := #[⟨∅, none⟩]
  parent_lt i h p e := by
    have : i = 0 := by simpa using h
    subst this
    simp at e

def size (store : Store ν) : Nat := store.scopes.size

def parent? (store : Store ν) (i : Nat) : Option Nat := store.scopes[i]?.bind Scope.parent

theorem parent?_lt (store : Store ν) {i p : Nat} (h : store.parent? i = some p) : p < i := by
  obtain ⟨scope, found, parent⟩ := Option.bind_eq_some_iff.1 h
  obtain ⟨bound, rfl⟩ := Array.getElem?_eq_some_iff.1 found
  exact store.parent_lt i bound p parent

/-- The own bindings of a scope. -/
def bindings (store : Store ν) (i : Nat) : Bindings ν :=
  match store.scopes[i]? with
  | some scope => scope.bindings
  | none => ∅

/-- Adds a scope. -/
def push (store : Store ν) (scope : Scope ν) (h : ∀ p, scope.parent = some p → p < store.size) :
    Store ν where
  scopes := store.scopes.push scope
  parent_lt i bound p e := by
    rw [Array.getElem_push] at e
    split at e
    · next old => exact store.parent_lt i old p e
    · next fresh =>
        have := h p e
        simp only [size] at this
        omega

/-- Adds an empty scope below the given one. -/
def child? (store : Store ν) (i : Nat) : Option (Nat × Store ν) :=
  if h : i < store.size then
    some (store.size, store.push ⟨∅, some i⟩ (by
      intro p e
      cases e
      exact h))
  else none

/-- Adds a scope with a copy of the bindings of the given one, and the same parent. -/
def clone? (store : Store ν) (i : Nat) : Option (Nat × Store ν) :=
  if h : i < store.size then
    some (store.size, store.push store.scopes[i] (by
      intro p e
      exact Nat.lt_trans (store.parent_lt i h p e) h))
  else none

def setBindings (store : Store ν) (i : Nat) (b : Bindings ν) : Store ν :=
  if h : i < store.scopes.size then
    { scopes := store.scopes.set i { store.scopes[i] with bindings := b }
      parent_lt := by
        intro j bound p e
        rw [Array.getElem_set] at e
        split at e
        · next same =>
            subst same
            exact store.parent_lt i h p e
        · exact store.parent_lt j (by simpa using bound) p e }
  else store

/-- The scope and its ancestors, from the scope out to the root. -/
def path (store : Store ν) (i : Nat) : List Nat :=
  match _ : store.parent? i with
  | some p => i :: store.path p
  | none => [i]
termination_by i
decreasing_by exact store.parent?_lt ‹_›

/-- The outermost ancestor of a scope. -/
def rootOf (store : Store ν) (i : Nat) : Nat :=
  match _ : store.parent? i with
  | some p => store.rootOf p
  | none => i
termination_by i
decreasing_by exact store.parent?_lt ‹_›

/-- The bindings along the path of a scope. -/
def view (store : Store ν) (i : Nat) : Chain ν :=
  match _ : store.parent? i with
  | some p => .child (store.bindings i) (store.view p)
  | none => .root (store.bindings i)
termination_by i
decreasing_by exact store.parent?_lt ‹_›

/-- Puts bindings back along the path of a scope. -/
def commit (store : Store ν) (i : Nat) : Chain ν → Store ν
  | .root b => store.setBindings i b
  | .child b outer =>
      match store.parent? i with
      | some p => (store.setBindings i b).commit p outer
      | none => store.setBindings i b

end Store

end MiniLisp
