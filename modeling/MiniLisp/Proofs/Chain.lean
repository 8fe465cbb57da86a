import MiniLisp.Proofs.Causes

/-!
One way to write through a chain. Assigning a name and altering what it stands for both replace the
value in the first scope that binds the name, and do so exactly if the name is bound (`assign?_eq`,
`modify?_eq`); so a place is written by a replacement or a declaration (`Place.write_var`,
`Place.write_element`), and a write that fails changes nothing (`Place.snd_write_of_error`).
-/

namespace MiniLisp

variable {ν β : Type} [DecidableEq ν]

namespace Chain

/-- Replaces the value of a name in the first scope that binds it; an unbound name stays unbound. -/
def replace (x : ν) (v : Value) : Chain ν → Chain ν
  | root b => if b.contains x then root (b.set x v) else root b
  | child b parent =>
      if b.contains x then child (b.set x v) parent else child b (parent.replace x v)

theorem assign?_eq (x : ν) (v : Value) (c : Chain ν) :
    c.assign? x v = (c.lookup x).map fun _ => c.replace x v := by
  induction c with
  | root b => cases h : b.get? x <;> simp [assign?, replace, lookup, Dictionary.contains, h]
  | child b parent ih =>
      cases h : b.get? x with
      | some old => simp [assign?, replace, lookup, Dictionary.contains, h]
      | none =>
          simp only [assign?, replace, lookup, Dictionary.contains, h, ih]
          cases parent.lookup x <;> rfl

theorem modify?_eq (x : ν) (f : Value → β × Value) (c : Chain ν) :
    c.modify? x f = (c.lookup x).map fun v => ((f v).1, c.replace x (f v).2) := by
  induction c with
  | root b =>
      cases h : b.get? x <;>
        simp [modify?, replace, lookup, Dictionary.modify?_eq, Dictionary.contains, h]
  | child b parent ih =>
      cases h : b.get? x with
      | some old => simp [modify?, replace, lookup, Dictionary.modify?_eq, Dictionary.contains, h]
      | none =>
          simp only [modify?, replace, lookup, Dictionary.modify?_eq, Dictionary.contains, h, ih]
          cases parent.lookup x <;> rfl

/-- Putting back the value that a name has changes nothing. -/
theorem replace_of_lookup {x : ν} {v : Value} {c : Chain ν} (h : c.lookup x = some v) :
    c.replace x v = c := by
  induction c with
  | root b =>
      have same : b.set x v = b := b.set_of_get? h
      simp [replace, same]
  | child b parent ih =>
      cases found : b.get? x with
      | some old =>
          have same : old = v := by simpa [lookup, found] using h
          subst same
          have same : b.set x old = b := b.set_of_get? found
          simp [replace, Dictionary.contains, found, same]
      | none =>
          have outer : parent.lookup x = some v := by simpa [lookup, found] using h
          simp [replace, Dictionary.contains, found, ih outer]

omit [DecidableEq ν] in
@[simp] theorem depth_root (b : Bindings ν) : (root b).depth = 0 := rfl

omit [DecidableEq ν] in
@[simp] theorem depth_child (b : Bindings ν) (parent : Chain ν) :
    (child b parent).depth = parent.depth + 1 := rfl

@[simp] theorem depth_define (x : ν) (v : Value) (c : Chain ν) : (c.define x v).depth = c.depth := by
  cases c <;> rfl

@[simp] theorem depth_replace (x : ν) (v : Value) (c : Chain ν) :
    (c.replace x v).depth = c.depth := by
  induction c with
  | root b =>
      rw [replace]
      split <;> rfl
  | child b parent ih =>
      rw [replace]
      split <;> simp [ih]

/-- Declaring names one after another only touches the current scope. -/
theorem foldl_define_child (arguments : List (ν × Value)) (b : Bindings ν) (parent : Chain ν) :
    ∃ b', arguments.foldl (fun c a => c.define a.1 a.2) (child b parent) = child b' parent := by
  induction arguments generalizing b with
  | nil => exact ⟨b, rfl⟩
  | cons a rest ih => exact ih (b.set a.1 a.2)

end Chain

namespace Place

theorem read_element (label : ν → String) (x : ν) (index : Int64) (c : Chain ν) :
    (element x index).read label c =
      match c.lookup x with
      | some v => readElement (label x) index v
      | none => .error (.undefinedVariable (label x)) := by
  rw [read, Chain.inspect_eq]
  cases c.lookup x <;> rfl

/-- A variable is always written: where it is bound, or else in the current scope. -/
theorem write_var (label : ν → String) (x : ν) (v : Value) (c : Chain ν) :
    (var x).write label v c = (.ok v, if c.contains x then c.replace x v else c.define x v) := by
  rw [write, Chain.assign?_eq, Chain.contains_eq]
  cases c.lookup x <;> rfl

/-- A refused element leaves the array as it is. -/
theorem storeElement_of_error {name : String} {index : Int64} {v stored : Value} {cause : Cause}
    (h : (storeElement name index v stored).1 = .error cause) :
    (storeElement name index v stored).2 = stored := by
  unfold storeElement at h ⊢
  split
  · split
    · rfl
    · split
      · simp_all
      · rfl
  · rfl

/-- An element is written by replacing the array that holds it. -/
theorem write_element (label : ν → String) (x : ν) (index : Int64) (v : Value) (c : Chain ν) :
    (element x index).write label v c =
      match c.lookup x with
      | some stored =>
          ((storeElement (label x) index v stored).1.map fun _ => v,
            c.replace x (storeElement (label x) index v stored).2)
      | none => (.error (.undefinedVariable (label x)), c) := by
  rw [write, Chain.modify?_eq]
  cases c.lookup x with
  | none => rfl
  | some stored =>
      simp only [Option.map_some]
      rcases storeElement (label x) index v stored with ⟨_ | _, after⟩ <;> rfl

/-- A write that succeeds yields the written value. -/
theorem eq_of_write {label : ν → String} {place : Place ν} {v w : Value} {c : Chain ν}
    (h : (place.write label v c).1 = .ok w) : w = v := by
  cases place with
  | var x =>
      rw [write_var] at h
      cases h
      rfl
  | element x index =>
      rw [write_element] at h
      split at h
      · next stored _ =>
          cases written : (storeElement (label x) index v stored).1 with
          | ok u =>
              rw [written] at h
              cases h
              rfl
          | error cause =>
              rw [written] at h
              cases h
      · cases h

/-- A write that fails leaves the chain as it is. -/
theorem snd_write_of_error {label : ν → String} {place : Place ν} {v : Value} {c : Chain ν}
    {cause : Cause} (h : (place.write label v c).1 = .error cause) :
    (place.write label v c).2 = c := by
  cases place with
  | var x =>
      rw [write_var] at h
      cases h
  | element x index =>
      rw [write_element] at h ⊢
      cases found : c.lookup x with
      | none => rfl
      | some stored =>
          simp only [found] at h ⊢
          cases written : (storeElement (label x) index v stored).1 with
          | ok u =>
              rw [written] at h
              cases h
          | error e => rw [storeElement_of_error written, Chain.replace_of_lookup found]

@[simp] theorem depth_write (label : ν → String) (place : Place ν) (v : Value) (c : Chain ν) :
    (place.write label v c).2.depth = c.depth := by
  cases place with
  | var x =>
      rw [write_var]
      split <;> simp
  | element x index =>
      rw [write_element]
      split <;> simp

theorem blames_read (label : ν → String) (place : Place ν) (c : Chain ν) :
    Blames [] (place.read label c) := by
  cases place with
  | var x =>
      rw [read]
      split
      · exact .ok _
      · exact .error trivial
  | element x index =>
      rw [read_element]
      split
      · exact blames_readElement _ _ _
      · exact .error trivial

theorem blames_write (label : ν → String) (place : Place ν) (v : Value) (c : Chain ν) :
    Blames [] (place.write label v c).1 := by
  cases place with
  | var x =>
      rw [write_var]
      exact .ok v
  | element x index =>
      rw [write_element]
      split
      · next stored _ =>
          have free := blames_storeElement (label x) index v stored
          cases h : (storeElement (label x) index v stored).1 with
          | ok u => exact .ok v
          | error cause => exact .error (free cause h)
      · exact .error trivial

end Place

end MiniLisp
