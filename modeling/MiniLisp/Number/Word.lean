/-!
Checked arithmetic on 64-bit integers. An operation is carried out over the unbounded integers, and
its result is kept only when it lies in the 64-bit range; nothing wraps. Main statement: `ofInt?`
finds exactly the word with the given value (`ofInt?_eq_some_iff`).
-/

namespace MiniLisp.Word

/-- A value lies in the 64-bit range. -/
def InRange (n : Int) : Prop := -0x8000000000000000 ≤ n ∧ n < 0x8000000000000000

instance (n : Int) : Decidable (InRange n) := inferInstanceAs (Decidable (_ ∧ _))

/-- The word with the given value, if there is one. -/
def ofInt? (n : Int) : Option Int64 :=
  if InRange n then some (Int64.ofInt n) else none

theorem inRange_toInt (a : Int64) : InRange a.toInt := ⟨a.le_toInt, a.toInt_lt⟩

theorem ofInt?_eq_some_iff {n : Int} {a : Int64} : ofInt? n = some a ↔ a.toInt = n := by
  unfold ofInt?
  split
  · next h =>
      rw [Option.some.injEq]
      constructor
      · intro e
        rw [← e, Int64.toInt_ofInt_of_le h.1 h.2]
      · intro e
        rw [← e, Int64.ofInt_toInt]
  · next h =>
      constructor
      · intro e
        cases e
      · intro e
        exact absurd (e ▸ inRange_toInt a) h

theorem ofInt?_eq_none_iff {n : Int} : ofInt? n = none ↔ ¬InRange n := by
  unfold ofInt?
  split <;> simp [*]

@[simp] theorem ofInt?_toInt (a : Int64) : ofInt? a.toInt = some a := ofInt?_eq_some_iff.2 rfl

def add? (a b : Int64) : Option Int64 := ofInt? (a.toInt + b.toInt)

def sub? (a b : Int64) : Option Int64 := ofInt? (a.toInt - b.toInt)

def mul? (a b : Int64) : Option Int64 := ofInt? (a.toInt * b.toInt)

/-- The quotient, truncated toward zero. Callers rule out a zero divisor first; the only quotient
out of range is the least word divided by minus one. -/
def quot? (a b : Int64) : Option Int64 := ofInt? (a.toInt.tdiv b.toInt)

/-- The remainder that belongs to `quot?`: it has the sign of the dividend, and there is none where
there is no quotient. -/
def rem? (a b : Int64) : Option Int64 :=
  (quot? a b).bind fun _ => ofInt? (a.toInt.tmod b.toInt)

end MiniLisp.Word
