import Mathlib.Control.Monad.Basic
import MiniLisp.Proofs.Definers

/-!
Reading and writing places. Seen from a scope, a place is a part of the value that its name means, or the
whole of it: reading gets this part (`Store.read_eq`), and a write puts a value there and rebinds the name
in its definer, or in the scope itself if it has none (`Store.write_eq`). The laws of getting and putting a
part carry over to the scopes (`Session.places_lawful`).
-/

namespace MiniLisp

namespace Cells

variable {cells : Array Scalar} {n m : Int64}

/-- The index is the position of an element. -/
def Holds (cells : Array Scalar) (n : Int64) : Prop :=
  0 ≤ n.toInt ∧ n.toInt.toNat < cells.size

instance : Decidable (Holds cells n) := inferInstanceAs (Decidable (_ ∧ _))

/-- The position that the index names. -/
def Holds.slot (h : Holds cells n) : Fin cells.size := ⟨n.toInt.toNat, h.2⟩

theorem slot?_of_holds (h : Holds cells n) : slot? cells n = .ok h.slot := dif_pos h

theorem slot?_of_not_holds (h : ¬Holds cells n) :
    slot? cells n = .error (.indexOutOfRange n cells.size) := dif_neg h

theorem get?_of_holds (h : Holds cells n) : get? cells n = .ok cells[h.slot] := by
  rw [get?, slot?_of_holds h]

theorem get?_of_not_holds (h : ¬Holds cells n) :
    get? cells n = .error (.indexOutOfRange n cells.size) := by
  rw [get?, slot?_of_not_holds h]

/-! ### Putting an element -/

@[simp] theorem size_put (slot : Fin cells.size) (s : Scalar) : (put cells slot s).size = cells.size :=
  Array.size_set _

theorem holds_put (slot : Fin cells.size) (s : Scalar) : Holds (put cells slot s) n ↔ Holds cells n := by
  rw [Holds, Holds, size_put]

/-- Different indices of elements are different positions. -/
theorem Holds.slot_ne (h : Holds cells n) (h' : Holds cells m) (ne : n ≠ m) :
    (h.slot : Nat) ≠ h'.slot := by
  intro same
  refine ne (Int64.toInt_inj.1 ?_)
  have := h.1
  have := h'.1
  simp only [slot] at same
  omega

theorem getElem_put_self (h : Holds cells n) (s : Scalar) :
    (put cells h.slot s)[((holds_put h.slot s).2 h).slot] = s := Array.getElem_set_self _

theorem getElem_put_of_ne (h : Holds cells n) (h' : Holds cells m) (ne : n ≠ m) (s : Scalar) :
    (put cells h.slot s)[((holds_put h.slot s).2 h').slot] = cells[h'.slot] :=
  Array.getElem_set_ne _ _ (h.slot_ne h' ne)

theorem put_getElem (h : Holds cells n) : put cells h.slot cells[h.slot] = cells :=
  Array.set_getElem_self h.2

theorem put_put (h : Holds cells n) (s r : Scalar) :
    put (put cells h.slot s) ((holds_put h.slot s).2 h).slot r = put cells h.slot r :=
  Array.set_set ..

/-- An array of the same length with another scalar at one index. -/
structure Replaced (cells : Array Scalar) (n : Int64) (s : Scalar) (after : Array Scalar) : Prop where
  size : after.size = cells.size
  element : 0 ≤ n.toInt ∧ after[n.toInt.toNat]? = some s
  others : ∀ k, k ≠ n.toInt.toNat → after[k]? = cells[k]?

theorem Holds.replaced (h : Holds cells n) (s : Scalar) : Replaced cells n s (put cells h.slot s) where
  size := size_put h.slot s
  element := ⟨h.1, Array.getElem?_set_self h.2⟩
  others _ ne := Array.getElem?_set_ne h.2 (Ne.symm ne)

end Cells

namespace Place

variable {ν : Type}

/-- The variable that the place is or is an element of. -/
def name : Place ν → ν
  | var x => x
  | element x _ => x

/-- The places are parts of two variables, or two elements of one. -/
inductive Apart : Place ν → Place ν → Prop
  | names {p q : Place ν} : p.name ≠ q.name → Apart p q
  | indices {x : ν} {n m : Int64} : n ≠ m → Apart (element x n) (element x m)

/-- Of the value that the name of the place stands for, this part is replaced and no other. -/
inductive Replaced : Place ν → Value → Value → Value → Prop
  | var {x : ν} {v stored : Value} : Replaced (var x) v stored v
  | element {x : ν} {n : Int64} {s : Scalar} {cells after : Array Scalar} :
      Cells.Replaced cells n s after →
        Replaced (element x n) (.scalar s) (.array cells) (.array after)

/-- The part that the place is of what its name means. -/
def get (label : ν → String) : Place ν → Option Value → Except Cause Value
  | var _, some stored => .ok stored
  | element x n, some stored => readElement (label x) n stored
  | p, none => .error (.undefinedVariable (label p.name))

/-- What the name means once the part is replaced. -/
def put (label : ν → String) (v : Value) : Place ν → Option Value → Except Cause Value
  | var _, _ => .ok v
  | element x n, some stored =>
      (storeElement (label x) n v stored).1.map fun _ => (storeElement (label x) n v stored).2
  | element x _, none => .error (.undefinedVariable (label x))

variable {label : ν → String} {x : ν} {n m : Int64} {p : Place ν} {found : Option Value}
  {v w new : Value} {cells : Array Scalar} {s : Scalar} {cause : Cause}

/-! ### Elements -/

theorem get_of_holds (h : Cells.Holds cells n) :
    (element x n).get label (some (.array cells)) = .ok (.scalar cells[h.slot]) := by
  rw [get, readElement, Cells.get?_of_holds h]

theorem get_of_not_holds (h : ¬Cells.Holds cells n) :
    (element x n).get label (some (.array cells)) = .error (.indexOutOfRange n cells.size) := by
  rw [get, readElement, Cells.get?_of_not_holds h]

theorem put_of_holds (h : Cells.Holds cells n) (s : Scalar) :
    (element x n).put label (.scalar s) (some (.array cells)) =
      .ok (.array (Cells.put cells h.slot s)) := by
  rw [put, storeElement, Cells.slot?_of_holds h]
  rfl

/-- Only arrays have elements. -/
theorem holds_of_get (h : (element x n).get label found = .ok v) :
    ∃ (cells : Array Scalar) (holds : Cells.Holds cells n),
      found = some (.array cells) ∧ v = .scalar cells[holds.slot] := by
  match found with
  | none => cases h
  | some (.scalar s) => cases h
  | some (.array cells) =>
      by_cases holds : Cells.Holds cells n
      · rw [get_of_holds holds] at h
        cases h
        exact ⟨cells, holds, rfl, rfl⟩
      · rw [get_of_not_holds holds] at h
        cases h

/-- An element is not put where none is got. -/
theorem put_of_get_error (h : (element x n).get label found = .error cause) (v : Value) :
    (element x n).put label v found = .error cause := by
  match found with
  | none => exact h
  | some (.scalar s) => exact h
  | some (.array cells) =>
      by_cases holds : Cells.Holds cells n
      · rw [get_of_holds holds] at h
        cases h
      · rw [get_of_not_holds holds] at h
        rw [put, storeElement, Cells.slot?_of_not_holds holds, ← h]
        rfl

theorem put_array_of_get (h : (element x n).get label found = .ok v) (cells : Array Scalar) :
    (element x n).put label (.array cells) found = .error .cannotAssignArrayElement := by
  obtain ⟨stored, holds, rfl, -⟩ := holds_of_get h
  rw [put, storeElement, Cells.slot?_of_holds holds]
  rfl

/-- Only scalars are put, and only where an element is got. -/
theorem holds_of_put (h : (element x n).put label v found = .ok new) :
    ∃ (cells : Array Scalar) (holds : Cells.Holds cells n) (s : Scalar),
      found = some (.array cells) ∧ v = .scalar s ∧
        new = .array (Cells.put cells holds.slot s) := by
  cases got : (element x n).get label found with
  | error cause =>
      rw [put_of_get_error got] at h
      cases h
  | ok old =>
      cases v with
      | array elements =>
          rw [put_array_of_get got] at h
          cases h
      | scalar s =>
          obtain ⟨cells, holds, rfl, -⟩ := holds_of_get got
          rw [put_of_holds holds] at h
          cases h
          exact ⟨cells, holds, s, rfl, rfl, rfl⟩

theorem replaced_of_put {stored : Value} (h : p.put label v (some stored) = .ok new) :
    p.Replaced v stored new := by
  cases p with
  | var x =>
      cases h
      exact .var
  | element x n =>
      obtain ⟨cells, holds, s, found, rfl, rfl⟩ := holds_of_put h
      cases found
      exact .element (holds.replaced s)

/-- A scalar is put wherever something is got. -/
theorem put_scalar_of_get (h : p.get label found = .ok v) (s : Scalar) :
    ∃ new, p.put label (.scalar s) found = .ok new := by
  cases p with
  | var x => exact ⟨_, rfl⟩
  | element x n =>
      obtain ⟨cells, holds, rfl, -⟩ := holds_of_get h
      exact ⟨_, put_of_holds holds s⟩

/-! ### Laws of getting and putting -/

theorem get_put (h : p.put label v found = .ok new) : p.get label (some new) = .ok v := by
  cases p with
  | var x =>
      cases h
      rfl
  | element x n =>
      obtain ⟨cells, holds, s, -, rfl, rfl⟩ := holds_of_put h
      rw [get_of_holds ((Cells.holds_put holds.slot s).2 holds), Cells.getElem_put_self]

/-- Putting an element leaves the other elements. -/
theorem get_put_of_ne (ne : n ≠ m) (h : (element x n).put label v found = .ok new) :
    (element x m).get label (some new) = (element x m).get label found := by
  obtain ⟨cells, holds, s, rfl, -, rfl⟩ := holds_of_put h
  by_cases other : Cells.Holds cells m
  · rw [get_of_holds other, get_of_holds ((Cells.holds_put holds.slot s).2 other),
      Cells.getElem_put_of_ne holds other ne]
  · rw [get_of_not_holds other, get_of_not_holds (mt (Cells.holds_put holds.slot s).1 other),
      Cells.size_put]

/-- Putting what is got changes nothing. -/
theorem put_get (h : p.get label found = .ok v) :
    ∃ stored, found = some stored ∧ p.put label v found = .ok stored := by
  cases p with
  | var x =>
      cases found with
      | none => cases h
      | some stored =>
          cases h
          exact ⟨v, rfl, rfl⟩
  | element x n =>
      obtain ⟨cells, holds, rfl, rfl⟩ := holds_of_get h
      refine ⟨.array cells, rfl, ?_⟩
      rw [put_of_holds holds, Cells.put_getElem]

/-- What was put before does not matter. -/
theorem put_put (h : p.put label v found = .ok new) (w : Value) :
    p.put label w (some new) = p.put label w found := by
  cases p with
  | var x => rfl
  | element x n =>
      obtain ⟨cells, holds, s, rfl, rfl, rfl⟩ := holds_of_put h
      have holds' := (Cells.holds_put holds.slot s).2 holds
      cases w with
      | array elements => rw [put_array_of_get (get_of_holds holds), put_array_of_get (get_of_holds holds')]
      | scalar r => rw [put_of_holds holds, put_of_holds holds', Cells.put_put]

end Place

namespace Store

variable {ν : Type} [DecidableEq ν] (store : Store ν) (label : ν → String) {i : Nat} {x : ν}
  {v w stored : Value}

/-- What a place holds, seen from a scope. -/
def read (i : Nat) (p : Place ν) : Except Cause Value := p.read label (store.view i)

/-- The answer to a write from a scope, and the scopes after it. -/
def write (i : Nat) (p : Place ν) (v : Value) : Except Cause Value × Store ν :=
  ((p.write label v (store.view i)).1, store.commit i (p.write label v (store.view i)).2)

/-- Of what the name of the place means, this part got a value in the definer. All else is as before. -/
def Changes (i : Nat) (p : Place ν) (v : Value) (after : Store ν) : Prop :=
  ∃ D stored new, store.definer? i p.name = some D ∧ (store.bindings D).get? p.name = some stored ∧
    p.Replaced v stored new ∧ store.Rebinds D p.name new after

/-- The scope in which a write rebinds the name: its definer, or else the scope itself. -/
def home (i : Nat) (x : ν) : Nat := (store.definer? i x).getD i

theorem home_of_definer? {D : Nat} (h : store.definer? i x = some D) : store.home i x = D := by
  rw [home, h, Option.getD_some]

theorem home_of_undefined (h : store.definer? i x = none) : store.home i x = i := by
  rw [home, h, Option.getD_none]

/-- A name that means a value means it in its home. -/
theorem get?_home (h : (store.view i).lookup x = some stored) :
    store.definer? i x = some (store.home i x) ∧
      (store.bindings (store.home i x)).get? x = some stored := by
  rw [lookup_view] at h
  obtain ⟨D, definer, bound⟩ := Option.bind_eq_some_iff.1 h
  rw [store.home_of_definer? definer]
  exact ⟨definer, bound⟩

theorem undefined_of_lookup (h : (store.view i).lookup x = none) : store.definer? i x = none := by
  cases definer : store.definer? i x with
  | none => rfl
  | some D =>
      obtain ⟨v, bound⟩ := store.get?_of_definer? definer
      rw [store.lookup_view_of_definer? definer bound] at h
      cases h

theorem home_lt_size (exists_scope : i < store.size) (x : ν) : store.home i x < store.size := by
  cases found : (store.view i).lookup x with
  | some stored => exact store.lt_size_of_get? (store.get?_home found).2
  | none => rwa [store.home_of_undefined (store.undefined_of_lookup found)]

/-- A name that is rebound in its home has its definer there. -/
theorem definer?_rebind_home (exists_scope : i < store.size) (x : ν) (v : Value) :
    (store.rebind (store.home i x) x v).definer? i x = some (store.home i x) := by
  cases found : (store.view i).lookup x with
  | some stored =>
      obtain ⟨definer, bound⟩ := store.get?_home found
      rw [store.definer?_rebind_of_get? bound, definer]
  | none =>
      rw [store.home_of_undefined (store.undefined_of_lookup found)]
      refine definer?_of_contains _ ?_
      rw [store.contains_rebind exists_scope, if_pos ⟨rfl, rfl⟩]

theorem home_rebind_home (exists_scope : i < store.size) (x : ν) (v : Value) :
    (store.rebind (store.home i x) x v).home i x = store.home i x :=
  home_of_definer? _ (store.definer?_rebind_home exists_scope x v)

theorem lookup_rebind_home (exists_scope : i < store.size) (x : ν) (v : Value) :
    ((store.rebind (store.home i x) x v).view i).lookup x = some v := by
  refine lookup_view_of_definer? _ (store.definer?_rebind_home exists_scope x v) ?_
  rw [store.get?_rebind (store.home_lt_size exists_scope x), if_pos ⟨rfl, rfl⟩]

theorem rebind_home_of_lookup (h : (store.view i).lookup x = some v) :
    store.rebind (store.home i x) x v = store := store.rebind_of_get? (store.get?_home h).2

/-- A place is read by getting its part of what its name means. -/
theorem read_eq (i : Nat) (p : Place ν) :
    store.read label i p = p.get label ((store.view i).lookup p.name) := by
  cases p with
  | var x =>
      rw [read, Place.read, Place.name]
      cases (store.view i).lookup x <;> rfl
  | element x n =>
      rw [read, Place.read_element, Place.name]
      cases (store.view i).lookup x <;> rfl

/-- A place is written by putting its part into what its name means; if this cannot be put, nothing is
written. -/
theorem write_eq (i : Nat) (p : Place ν) (v : Value) :
    store.write label i p v =
      match p.put label v ((store.view i).lookup p.name) with
      | .ok new => (.ok v, store.rebind (store.home i p.name) p.name new)
      | .error cause => (.error cause, store) := by
  cases p with
  | var x =>
      rw [write, Place.write_var, Chain.contains_eq, Place.name]
      cases found : (store.view i).lookup x with
      | some stored =>
          refine Prod.ext rfl ?_
          exact store.commit_replace_of_definer? (store.get?_home found).1 v
      | none =>
          rw [store.home_of_undefined (store.undefined_of_lookup found)]
          exact Prod.ext rfl (store.commit_define i x v)
  | element x n =>
      rw [write, Place.write_element, Place.name]
      cases found : (store.view i).lookup x with
      | none => exact Prod.ext rfl (store.commit_view i)
      | some stored =>
          simp only [Place.put]
          cases outcome : (Place.storeElement (label x) n v stored).1 with
          | ok u =>
              refine Prod.ext rfl ?_
              exact store.commit_replace_of_definer? (store.get?_home found).1 _
          | error cause =>
              refine Prod.ext rfl ?_
              show store.commit i _ = store
              rw [Place.storeElement_of_error outcome, Chain.replace_of_lookup found, commit_view]

variable {store label}

theorem write_of_put {p : Place ν} {new : Value}
    (h : p.put label v ((store.view i).lookup p.name) = .ok new) :
    store.write label i p v = (.ok v, store.rebind (store.home i p.name) p.name new) := by
  rw [write_eq, h]

theorem write_of_put_error {p : Place ν} {cause : Cause}
    (h : p.put label v ((store.view i).lookup p.name) = .error cause) :
    store.write label i p v = (.error cause, store) := by
  rw [write_eq, h]

/-- A write that succeeds has put the written value. -/
theorem put_of_write {p : Place ν} (h : (store.write label i p v).1 = .ok w) :
    w = v ∧ ∃ new, p.put label v ((store.view i).lookup p.name) = .ok new ∧
      (store.write label i p v).2 = store.rebind (store.home i p.name) p.name new := by
  cases put : p.put label v ((store.view i).lookup p.name) with
  | error cause =>
      rw [write_of_put_error put] at h
      cases h
  | ok new =>
      rw [write_of_put put] at h ⊢
      cases h
      exact ⟨rfl, new, rfl, rfl⟩

/-! ### Laws of reading and writing -/

/-- A write that fails changes nothing. -/
theorem write_of_error {p : Place ν} {cause : Cause} (h : (store.write label i p v).1 = .error cause) :
    (store.write label i p v).2 = store := by
  cases put : p.put label v ((store.view i).lookup p.name) with
  | error cause => rw [write_of_put_error put]
  | ok new =>
      rw [write_of_put put] at h
      cases h

theorem read_of_write (exists_scope : i < store.size) {p : Place ν}
    (h : (store.write label i p v).1 = .ok w) :
    (store.write label i p v).2.read label i p = .ok v := by
  obtain ⟨-, new, put, after⟩ := put_of_write h
  rw [after, read_eq, store.lookup_rebind_home exists_scope, Place.get_put put]

theorem write_of_read {p : Place ν} (h : store.read label i p = .ok v) :
    store.write label i p v = (.ok v, store) := by
  rw [read_eq] at h
  obtain ⟨stored, found, put⟩ := Place.put_get h
  rw [write_of_put put, store.rebind_home_of_lookup found]

/-- Writing over what was written is writing at once. -/
theorem write_write (exists_scope : i < store.size) {p : Place ν} {r r' : Value}
    (first : (store.write label i p v).1 = .ok r)
    (second : ((store.write label i p v).2.write label i p w).1 = .ok r') :
    (store.write label i p v).2.write label i p w = store.write label i p w := by
  obtain ⟨-, new, put, after⟩ := put_of_write first
  rw [after] at second ⊢
  obtain ⟨-, newer, put', -⟩ := put_of_write second
  have at_once := put'
  rw [store.lookup_rebind_home exists_scope, Place.put_put put] at at_once
  rw [write_of_put put', write_of_put at_once, store.home_rebind_home exists_scope, rebind_rebind]

theorem read_apart (exists_scope : i < store.size) {p q : Place ν} (apart : Place.Apart p q)
    (v : Value) : (store.write label i p v).2.read label i q = store.read label i q := by
  cases outcome : (store.write label i p v).1 with
  | error cause => rw [write_of_error outcome]
  | ok w =>
      obtain ⟨-, new, put, after⟩ := put_of_write outcome
      rw [after, read_eq, read_eq]
      cases apart with
      | names ne => rw [store.lookup_rebind_of_ne (store.home_lt_size exists_scope _) (Ne.symm ne)]
      | indices ne =>
          rw [Place.name, Place.name, store.lookup_rebind_home exists_scope]
          exact Place.get_put_of_ne ne put

theorem write_scalar {n : Int64} {s : Scalar} {cause : Cause} :
    (store.write label i (.element x n) (.scalar s)).1 = .error cause ↔
      store.read label i (.element x n) = .error cause := by
  rw [read_eq]
  cases got : (Place.element x n).get label ((store.view i).lookup (Place.element x n).name) with
  | error e => rw [write_of_put_error (Place.put_of_get_error got _)]
  | ok old =>
      obtain ⟨cells, holds, found, -⟩ := Place.holds_of_get got
      rw [write_of_put (found ▸ Place.put_of_holds holds s)]
      exact ⟨nofun, nofun⟩

theorem write_array {n : Int64} {cells : Array Scalar} :
    (store.write label i (.element x n) (.array cells)).1 =
      match store.read label i (.element x n) with
      | .error cause => .error cause
      | .ok _ => .error .cannotAssignArrayElement := by
  rw [read_eq]
  cases got : (Place.element x n).get label ((store.view i).lookup (Place.element x n).name) with
  | error e => rw [write_of_put_error (Place.put_of_get_error got _)]
  | ok old => rw [write_of_put_error (Place.put_array_of_get got _)]

/-- Writing to a place whose name is bound replaces this part in the definer. -/
theorem changes_of_write {p : Place ν} (h : (store.write label i p v).1 = .ok w)
    (found : (store.view i).lookup p.name = some stored) :
    store.Changes i p v (store.write label i p v).2 := by
  obtain ⟨-, new, put, after⟩ := put_of_write h
  obtain ⟨definer, bound⟩ := store.get?_home found
  rw [found] at put
  rw [after]
  exact ⟨_, stored, new, definer, bound, Place.replaced_of_put put, store.rebinds_rebind bound new⟩

theorem changes_of_write_element {n : Int64} (h : (store.write label i (.element x n) v).1 = .ok w) :
    store.Changes i (.element x n) v (store.write label i (.element x n) v).2 := by
  obtain ⟨-, new, put, -⟩ := put_of_write h
  obtain ⟨cells, -, -, found, -⟩ := Place.holds_of_put put
  exact changes_of_write h found

theorem read_element (x : ν) (n : Int64) :
    store.read label i (.element x n) =
      match (store.view i).lookup x with
      | none => .error (.undefinedVariable (label x))
      | some (.scalar _) => .error (.notAnArray (label x))
      | some (.array cells) =>
          if h : 0 ≤ n.toInt ∧ n.toInt.toNat < cells.size then .ok (.scalar cells[n.toInt.toNat])
          else .error (.indexOutOfRange n cells.size) := by
  rw [read_eq, Place.name]
  match (store.view i).lookup x with
  | none => rfl
  | some (.scalar s) => rfl
  | some (.array cells) =>
      dsimp only
      split
      · next holds => exact Place.get_of_holds holds
      · next missing => exact Place.get_of_not_holds missing

variable (store label)

/-- The scopes obey the laws of reading and writing places, seen from one scope. -/
structure LensLaws (i : Nat) : Prop where
  /-- A write that succeeds yields the written value, which is then read. -/
  read_write : ∀ p v w, (store.write label i p v).1 = .ok w →
    w = v ∧ (store.write label i p v).2.read label i p = .ok v
  /-- A write does not show in a place apart. -/
  read_apart : ∀ p q v, Place.Apart p q →
    (store.write label i p v).2.read label i q = store.read label i q
  /-- Writing what is read changes nothing. -/
  write_read : ∀ p v, store.read label i p = .ok v → store.write label i p v = (.ok v, store)
  /-- Of two writes that succeed, the first does not matter. -/
  write_write : ∀ p v w r r', (store.write label i p v).1 = .ok r →
    ((store.write label i p v).2.write label i p w).1 = .ok r' →
      (store.write label i p v).2.write label i p w = store.write label i p w
  /-- A variable is always written. -/
  write_var : ∀ x v, (store.write label i (.var x) v).1 = .ok v
  /-- The errors of reading an element, in the order in which they are looked for. -/
  read_element : ∀ x n, store.read label i (.element x n) =
    match (store.view i).lookup x with
    | none => .error (.undefinedVariable (label x))
    | some (.scalar _) => .error (.notAnArray (label x))
    | some (.array cells) =>
        if h : 0 ≤ n.toInt ∧ n.toInt.toNat < cells.size then .ok (.scalar cells[n.toInt.toNat])
        else .error (.indexOutOfRange n cells.size)
  /-- A scalar is refused as an element where no element is read, for the same reason. -/
  write_scalar : ∀ x n s cause, (store.write label i (.element x n) (.scalar s)).1 = .error cause ↔
    store.read label i (.element x n) = .error cause
  /-- An array is always refused as an element. -/
  write_array : ∀ x n cells, (store.write label i (.element x n) (.array cells)).1 =
    match store.read label i (.element x n) with
    | .error cause => .error cause
    | .ok _ => .error .cannotAssignArrayElement
  /-- A write that fails changes nothing. -/
  write_error : ∀ p v cause, (store.write label i p v).1 = .error cause →
    (store.write label i p v).2 = store
  /-- A write to an element changes this element of an array of the same length, and nothing else. -/
  write_element : ∀ x n v w, (store.write label i (.element x n) v).1 = .ok w →
    store.Changes i (.element x n) v (store.write label i (.element x n) v).2

variable {store label}

theorem lensLaws (exists_scope : i < store.size) : store.LensLaws label i where
  read_write _ _ _ ok := ⟨(put_of_write ok).1, read_of_write exists_scope ok⟩
  read_apart _ _ v apart := read_apart exists_scope apart v
  write_read _ _ := write_of_read
  write_write _ _ _ _ _ := write_write exists_scope
  write_var x v := by rw [write_of_put rfl]
  read_element := read_element
  write_scalar _ _ _ _ := write_scalar
  write_array _ _ _ := write_array
  write_error _ _ _ := write_of_error
  write_element _ _ _ _ := changes_of_write_element

end Store

namespace Session

variable {ν : Type} [DecidableEq ν]

/-- Seen from any scope, the places obey the laws of reading and writing, and commands to read or write a
place do this and no more. -/
theorem places_lawful (session : Session ν) (label : ν → String) {i : Nat}
    (exists_scope : i < session.store.size) :
    session.store.LensLaws label i ∧ ∀ fuel p,
      session.step label fuel (.readPlace i p) =
        (report .value (session.store.read label i p), session) ∧
      ∀ v, session.step label fuel (.writePlace i p v) =
        (report .value (session.store.write label i p v).1,
          session.withStore (session.store.write label i p v).2) := by
  refine ⟨Store.lensLaws exists_scope, fun fuel p => ⟨if_pos exists_scope, fun v => ?_⟩⟩
  exact if_pos exists_scope

/-- A root that binds the name 0 to an array, a scope below it that binds the name to a longer one, and an
empty scope below that one. -/
def rows : Session Nat :=
  [.child 0, .child 1, .define 0 0 (.array #[.int 1]), .define 1 0 (.array #[.int 2, .int 3])].foldl
    (fun session command => (session.step toString 0 command).2) (new (Interpreter.new none .silent))

/-- From the innermost scope an element of the longer array is written. This shows in no other element and
not in the array of the root; an index below zero is refused without a write. -/
theorem places_lawful_rows :
    let written := rows.store.write toString 2 (.element 0 1) (.int 7)
    let refused := rows.store.write toString 2 (.element 0 (-1)) (.int 7)
    written.1 = .ok (.int 7) ∧
    written.2.read toString 2 (.element 0 1) = .ok (.int 7) ∧
    written.2.read toString 2 (.element 0 0) = .ok (.int 2) ∧
    (written.2.view 0).lookup 0 = some (.array #[.int 1]) ∧
    refused.1 = .error (.indexOutOfRange (-1) 2) ∧ refused.2 = rows.store := by
  intro written refused
  have laws := (places_lawful rows toString (i := 2) (by decide +kernel)).1
  have success : written.1 = .ok (.int 7) := by decide +kernel
  have failure : refused.1 = .error (.indexOutOfRange (-1) 2) := by decide +kernel
  obtain ⟨D, stored, new, definer, -, -, rebinds⟩ := laws.write_element 0 1 _ _ success
  have inner : rows.store.definer? 2 0 = some 1 := by decide +kernel
  obtain rfl : D = 1 := Option.some.inj (definer.symm.trans inner)
  refine ⟨success, (laws.read_write _ _ _ success).2, ?_, ?_, failure, laws.write_error _ _ _ failure⟩
  · rw [laws.read_apart _ _ _ (.indices (by decide))]
    decide +kernel
  · have outer : rows.store.definer? 0 0 = some 0 := by decide +kernel
    rw [rebinds.lookups, if_neg fun both => absurd (outer.symm.trans both.1) (by decide)]
    decide +kernel

end Session

end MiniLisp
