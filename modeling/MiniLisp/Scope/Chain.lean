import MiniLisp.Dictionary
import MiniLisp.Value.Basic

/-!
Chains of scopes, from the current scope out to the root. A name means its binding in the first scope
of the chain that has one. A declaration binds in the current scope; an assignment replaces the
binding that the name means.
-/

namespace MiniLisp

variable {ν β : Type}

abbrev Bindings (ν : Type) := Dictionary ν Value

inductive Chain (ν : Type) where
  | root (bindings : Bindings ν)
  | child (bindings : Bindings ν) (parent : Chain ν)
  deriving DecidableEq

namespace Chain

/-- The bindings of the root scope. -/
def rootBindings : Chain ν → Bindings ν
  | root b => b
  | child _ parent => parent.rootBindings

/-- The chain with other bindings in its root. -/
def withRoot (fresh : Bindings ν) : Chain ν → Chain ν
  | root _ => root fresh
  | child b parent => child b (parent.withRoot fresh)

/-- Opens a new scope. -/
def enter (c : Chain ν) : Chain ν := child ∅ c

/-- Leaves the current scope; the root is never left. -/
def leave : Chain ν → Chain ν
  | root b => root b
  | child _ parent => parent

def depth : Chain ν → Nat
  | root _ => 0
  | child _ parent => parent.depth + 1

variable [DecidableEq ν]

def lookup (x : ν) : Chain ν → Option Value
  | root b => b.get? x
  | child b parent =>
      match b.get? x with
      | some v => some v
      | none => parent.lookup x

def contains (x : ν) : Chain ν → Bool
  | root b => b.contains x
  | child b parent => if b.contains x then true else parent.contains x

/-- Applies `f` to the stored value. -/
def inspect (x : ν) (f : Value → β) : Chain ν → Option β
  | root b => (b.get? x).map f
  | child b parent =>
      match b.get? x with
      | some v => some (f v)
      | none => parent.inspect x f

/-- Binds a name in the current scope. -/
def define (x : ν) (v : Value) : Chain ν → Chain ν
  | root b => root (b.set x v)
  | child b parent => child (b.set x v) parent

/-- Replaces the value of a name; none if the name is not bound. -/
def assign? (x : ν) (v : Value) : Chain ν → Option (Chain ν)
  | root b => if b.contains x then some (root (b.set x v)) else none
  | child b parent =>
      if b.contains x then some (child (b.set x v) parent)
      else match parent.assign? x v with
        | some parent => some (child b parent)
        | none => none

/-- Replaces the stored value by what `f` makes of it, and gives what `f` found. -/
def modify? (x : ν) (f : Value → β × Value) : Chain ν → Option (β × Chain ν)
  | root b =>
      match b.modify? x f with
      | some (r, b) => some (r, root b)
      | none => none
  | child b parent =>
      match b.modify? x f with
      | some (r, b) => some (r, child b parent)
      | none =>
          match parent.modify? x f with
          | some (r, parent) => some (r, child b parent)
          | none => none

theorem contains_eq (x : ν) (c : Chain ν) : c.contains x = (c.lookup x).isSome := by
  induction c with
  | root b => rfl
  | child b parent ih =>
      cases h : b.get? x with
      | none => simp [contains, lookup, Dictionary.contains, h, ih]
      | some v => simp [contains, lookup, Dictionary.contains, h]

theorem inspect_eq (x : ν) (f : Value → β) (c : Chain ν) : c.inspect x f = (c.lookup x).map f := by
  induction c with
  | root b => rfl
  | child b parent ih =>
      cases h : b.get? x with
      | none => simp [inspect, lookup, h, ih]
      | some v => simp [inspect, lookup, h]

end Chain

end MiniLisp
