/-!
Finite maps kept as the list of their entries, in the order in which the keys were first set. Setting
a known key replaces its value in place. Main statements: a set key reads back and no other key
changes (`get?_set`), setting what is read changes nothing (`set_of_get?`), and of two values set
for one key the later one stays (`set_set`).
-/

namespace MiniLisp

structure Dictionary (κ α : Type) where
  entries : List (κ × α)
  deriving DecidableEq

namespace Dictionary

variable {κ α β : Type} [DecidableEq κ]

def empty : Dictionary κ α := ⟨[]⟩

instance : EmptyCollection (Dictionary κ α) := ⟨empty⟩

def find : List (κ × α) → κ → Option α
  | [], _ => none
  | (k, a) :: rest, x => if k = x then some a else find rest x

def put : List (κ × α) → κ → α → List (κ × α)
  | [], x, b => [(x, b)]
  | (k, a) :: rest, x, b => if k = x then (k, b) :: rest else (k, a) :: put rest x b

/-- Replaces the value of a key by what `f` makes of it, and gives what `f` found; nothing if the key
is unknown. -/
def alter : List (κ × α) → κ → (α → β × α) → Option (β × List (κ × α))
  | [], _, _ => none
  | (k, a) :: rest, x, f =>
      if k = x then
        let (b, a') := f a
        some (b, (k, a') :: rest)
      else match alter rest x f with
        | some (b, rest') => some (b, (k, a) :: rest')
        | none => none

def get? (d : Dictionary κ α) (x : κ) : Option α := find d.entries x

def contains (d : Dictionary κ α) (x : κ) : Bool := (d.get? x).isSome

def set (d : Dictionary κ α) (x : κ) (a : α) : Dictionary κ α := ⟨put d.entries x a⟩

def modify? (d : Dictionary κ α) (x : κ) (f : α → β × α) : Option (β × Dictionary κ α) :=
  match alter d.entries x f with
  | some (b, entries) => some (b, ⟨entries⟩)
  | none => none

/-- Replaces every value. -/
def map (f : α → β) (d : Dictionary κ α) : Dictionary κ β :=
  ⟨d.entries.map fun entry => (entry.1, f entry.2)⟩

def keys (d : Dictionary κ α) : List κ := d.entries.map Prod.fst

def size (d : Dictionary κ α) : Nat := d.entries.length

@[simp] theorem get?_empty (x : κ) : (∅ : Dictionary κ α).get? x = none := rfl

theorem find_put (l : List (κ × α)) (x y : κ) (b : α) :
    find (put l x b) y = if x = y then some b else find l y := by
  induction l with
  | nil => rfl
  | cons entry rest ih =>
      obtain ⟨k, a⟩ := entry
      by_cases hx : k = x
      · subst hx
        by_cases hy : k = y <;> simp [put, find, hy]
      · by_cases hy : k = y
        · subst hy
          have : ¬x = k := fun e => hx e.symm
          simp [put, find, hx, this]
        · simp [put, find, hx, hy, ih]

theorem get?_set (d : Dictionary κ α) (x y : κ) (a : α) :
    (d.set x a).get? y = if x = y then some a else d.get? y := find_put d.entries x y a

@[simp] theorem get?_set_self (d : Dictionary κ α) (x : κ) (a : α) :
    (d.set x a).get? x = some a := by simp [get?_set]

theorem get?_set_of_ne (d : Dictionary κ α) {x y : κ} (h : x ≠ y) (a : α) :
    (d.set x a).get? y = d.get? y := by simp [get?_set, h]

theorem get?_map (f : α → β) (d : Dictionary κ α) (x : κ) :
    (d.map f).get? x = (d.get? x).map f := by
  obtain ⟨l⟩ := d
  show find (l.map _) x = (find l x).map f
  induction l with
  | nil => rfl
  | cons entry rest ih =>
      obtain ⟨k, a⟩ := entry
      by_cases hk : k = x
      · simp [find, hk]
      · simp [find, hk, ih]

theorem set_of_get? (d : Dictionary κ α) {x : κ} {a : α} (h : d.get? x = some a) :
    d.set x a = d := by
  obtain ⟨l⟩ := d
  refine congrArg mk ?_
  change find l x = some a at h
  change put l x a = l
  induction l with
  | nil => cases h
  | cons entry rest ih =>
      obtain ⟨k, b⟩ := entry
      by_cases hk : k = x
      · simp_all [find, put]
      · simp_all [find, put]

theorem set_set (d : Dictionary κ α) (x : κ) (a b : α) : (d.set x a).set x b = d.set x b := by
  obtain ⟨l⟩ := d
  refine congrArg mk ?_
  change put (put l x a) x b = put l x b
  induction l with
  | nil => simp [put]
  | cons entry rest ih =>
      obtain ⟨k, c⟩ := entry
      by_cases hk : k = x <;> simp [put, hk, ih]

/-- Altering is reading, then setting. -/
theorem modify?_eq (d : Dictionary κ α) (x : κ) (f : α → β × α) :
    d.modify? x f = (d.get? x).map fun a => ((f a).1, d.set x (f a).2) := by
  obtain ⟨l⟩ := d
  simp only [modify?, get?, set]
  induction l with
  | nil => rfl
  | cons entry rest ih =>
      obtain ⟨k, a⟩ := entry
      by_cases hk : k = x
      · simp [alter, find, put, hk]
      · simp only [alter, find, put, hk, if_false]
        cases h : alter rest x f with
        | none =>
            rw [h] at ih
            cases hf : find rest x <;> simp_all
        | some r =>
            rw [h] at ih
            cases hf : find rest x <;> simp_all

end Dictionary

end MiniLisp
