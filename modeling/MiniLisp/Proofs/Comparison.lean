import MiniLisp.Operator.Binary
import MiniLisp.Proofs.Extremum

/-!
Comparisons of numbers. Two integers are compared exactly, any other pair as floats, and different integers
can be one float; so three numbers may be compared by two rules. The strict order is transitive all the same
(`Number.compare_trans`): wherever a float takes part, one of the two steps goes up in rank and the other
does not go down. The weak order is not transitive. Main statement: the four comparisons of numbers agree with
each other, and the order tests of scalars with the operators (`Comparison.comparisons_coherent`).
-/

namespace MiniLisp

namespace Number

variable {a b c : Number}

/-- A float that is not a number. -/
def isNaN : Number → Bool
  | int _ => false
  | float x => x.isNaN

theorem isNaN_iff : a.isNaN ↔ a.rank? = none := by
  cases a with
  | int n => simp [isNaN]
  | float x => exact Binary64.isNaN_iff

/-- The other way round, the order is reversed. -/
theorem compare_swap (a b : Number) : b.compare a = (a.compare b).map Ordering.swap := by
  rcases ints_or_promoted a b with ⟨m, n, rfl, rfl⟩ | float
  · rw [compare_ints, compare_ints, Option.map_some, Int.compare_swap]
  · rw [compare_promoted float, compare_promoted float.symm]
    cases a.rank? <;> cases b.rank? <;> simp [Int.compare_swap]

/-- There is no order if and only if one of the two is not a number. -/
theorem compare_eq_none_iff : a.compare b = none ↔ a.isNaN ∨ b.isNaN := by
  rw [isNaN_iff, isNaN_iff]
  rcases ints_or_promoted a b with ⟨m, n, rfl, rfl⟩ | float
  · simp [compare_ints]
  · rw [compare_promoted float]
    cases a.rank? <;> cases b.rank? <;> simp

theorem compare_self_ne (a : Number) : a.compare a ≠ some .lt := by
  intro less
  have reversed := compare_swap a a
  rw [less] at reversed
  cases reversed

/-- Below a number that is below another. Three integers are compared exactly. Otherwise a step of the two
is one between floats, and goes up in rank; the other does not go down, so the ends are apart in rank. -/
theorem compare_trans (h : a.compare b = some .lt) (h' : b.compare c = some .lt) :
    a.compare c = some .lt := by
  have first : Extremum.min.Beats a b := h
  have second : Extremum.min.Beats b c := h'
  show Extremum.min.Beats a c
  rcases ints_or_promoted a b with ⟨m, n, rfl, rfl⟩ | float
  · rcases ints_or_promoted (.int n) c with ⟨_, k, same, rfl⟩ | float
    · -- no float takes part
      cases same
      exact Extremum.beats_ints.2
        (Int.lt_trans (Extremum.beats_ints.1 second) (Extremum.beats_ints.1 first))
    · -- the second step is one between floats
      obtain ⟨i, j, rankA, rankB, le⟩ := Extremum.ranks_of_beats first
      obtain ⟨j', k, rankB', rankC, lt⟩ := (Extremum.beats_promoted float).1 second
      cases rankB.symm.trans rankB'
      exact Extremum.beats_of_rank_lt rankA rankC (Int.lt_of_lt_of_le lt le)
  · -- the first step is one between floats
    obtain ⟨i, j, rankA, rankB, lt⟩ := (Extremum.beats_promoted float).1 first
    obtain ⟨j', k, rankB', rankC, le⟩ := Extremum.ranks_of_beats second
    cases rankB.symm.trans rankB'
    exact Extremum.beats_of_rank_lt rankA rankC (Int.lt_of_le_of_lt le lt)

end Number

namespace Comparison

variable {a b c : Number} {test : Comparison}

/-- What the operator yields on two numbers. -/
def eval (test : Comparison) (a b : Number) : Except Cause Value :=
  (BinaryOp.compare test).apply (.number a) (.number b)

theorem eval_eq (test : Comparison) (a b : Number) :
    eval test a b = .ok (.ofBool (test.holds (a.compare b))) := rfl

theorem eval_eq_t : eval test a b = .ok .t ↔ test.holds (a.compare b) := by
  rw [eval_eq]
  cases test.holds (a.compare b) <;> simp [Value.ofBool, Scalar.ofBool]

theorem eval_eq_nil : eval test a b = .ok .nil ↔ test.holds (a.compare b) = false := by
  rw [eval_eq]
  cases test.holds (a.compare b) <;> simp [Value.ofBool, Scalar.ofBool]

theorem holds_lt {o : Option Ordering} : lt.holds o ↔ o = some .lt := by
  rcases o with _ | _ | _ | _ <;> decide

theorem holds_gt (o : Option Ordering) : gt.holds o = lt.holds (o.map Ordering.swap) := by
  rcases o with _ | _ | _ | _ <;> rfl

theorem holds_ge (o : Option Ordering) : ge.holds o = le.holds (o.map Ordering.swap) := by
  rcases o with _ | _ | _ | _ <;> rfl

/-- In an order, one of two holds: at most, or the other way round below. -/
theorem holds_le {o : Option Ordering} (ordered : o ≠ none) :
    le.holds o = !lt.holds (o.map Ordering.swap) := by
  rcases o with _ | _ | _ | _
  · exact absurd rfl ordered
  all_goals rfl

theorem holds_none (test : Comparison) : test.holds none = false := by
  cases test <;> rfl

theorem eval_gt (a b : Number) : eval .gt a b = eval .lt b a := by
  rw [eval_eq, eval_eq, holds_gt, ← Number.compare_swap]

theorem eval_ge (a b : Number) : eval .ge a b = eval .le b a := by
  rw [eval_eq, eval_eq, holds_ge, ← Number.compare_swap]

theorem eval_lt_irrefl (a : Number) : eval .lt a a = .ok .nil := by
  rw [eval_eq_nil, Bool.eq_false_iff, ne_eq, holds_lt]
  exact a.compare_self_ne

theorem eval_lt_trans (h : eval .lt a b = .ok .t) (h' : eval .lt b c = .ok .t) :
    eval .lt a c = .ok .t := by
  rw [eval_eq_t, holds_lt] at h h' ⊢
  exact Number.compare_trans h h'

theorem eval_le_iff (ha : ¬a.isNaN) (hb : ¬b.isNaN) :
    eval .le a b = .ok .t ↔ eval .lt b a = .ok .nil := by
  have ordered : a.compare b ≠ none := fun none => (Number.compare_eq_none_iff.1 none).elim ha hb
  rw [eval_eq_t, eval_eq_nil, holds_le ordered, ← Number.compare_swap, Bool.not_eq_true']

theorem eval_of_isNaN (h : a.isNaN ∨ b.isNaN) (test : Comparison) : eval test a b = .ok .nil := by
  rw [eval_eq_nil, Number.compare_eq_none_iff.2 h, holds_none]

/-! ### The order tests of scalars -/

theorem decide_lt (a b : Number) : a.lt b = lt.holds (a.compare b) := by
  unfold Number.lt
  rcases a.compare b with _ | _ | _ | _ <;> rfl

theorem decide_le (a b : Number) : a.le b = le.holds (a.compare b) := by
  unfold Number.le
  rcases a.compare b with _ | _ | _ | _ <;> rfl

/-- A scalar is read as a number in one way, whoever asks. -/
theorem asNumber_eq (symbol : String) (s : Scalar) :
    s.asNumber symbol = Operand.number symbol (.scalar s) := rfl

/-- A test that reads its operands from the left and decides as the operator does answers, and fails, as
the operator does. -/
theorem ordered_eq (test : Comparison) {decides : Number → Number → Bool}
    (agrees : ∀ a b, decides a b = test.holds (a.compare b)) (left right : Scalar) :
    Except.map Value.ofBool (do
      let a ← left.asNumber (BinaryOp.compare test).symbol
      let b ← right.asNumber (BinaryOp.compare test).symbol
      return decides a b) = (BinaryOp.compare test).apply (.scalar left) (.scalar right) := by
  simp only [BinaryOp.apply, asNumber_eq, agrees]
  cases Operand.number (BinaryOp.compare test).symbol (.scalar left) with
  | error cause => rfl
  | ok a =>
      cases Operand.number (BinaryOp.compare test).symbol (.scalar right) with
      | error cause => rfl
      | ok b => rfl

theorem scalar_lt (left right : Scalar) :
    (left.lt right).map Value.ofBool = (BinaryOp.compare .lt).apply (.scalar left) (.scalar right) :=
  ordered_eq .lt decide_lt left right

theorem scalar_le (left right : Scalar) :
    (left.le right).map Value.ofBool = (BinaryOp.compare .le).apply (.scalar left) (.scalar right) :=
  ordered_eq .le decide_le left right

/-- Both order tests blame the first scalar that is no number. -/
theorem scalar_blamed {left right bad : Scalar}
    (h : [left, right].find? (fun s => s.number?.isNone) = some bad) :
    left.lt right = .error (.typeMismatch "<" "number" bad.typeName) ∧
      left.le right = .error (.typeMismatch "<=" "number" bad.typeName) := by
  unfold Scalar.lt Scalar.le Scalar.asNumber
  cases readLeft : left.number? with
  | none =>
      have same : left = bad := by simpa [readLeft] using h
      subst same
      exact ⟨rfl, rfl⟩
  | some a =>
      cases readRight : right.number? with
      | none =>
          have same : right = bad := by simpa [readLeft, readRight] using h
          subst same
          exact ⟨rfl, rfl⟩
      | some b => simp [readLeft, readRight] at h

/-- Below is a strict order of all numbers, the other comparisons are given by it, and what is not a number
is in no order. The order tests of scalars give the answers and the errors of the operators, and blame the
first scalar that is no number. -/
theorem comparisons_coherent (a b c : Number) (left right : Scalar) :
    eval .lt a a = .ok .nil ∧
      (eval .lt a b = .ok .t → eval .lt b c = .ok .t → eval .lt a c = .ok .t) ∧
      eval .gt a b = eval .lt b a ∧
      eval .ge a b = eval .le b a ∧
      (¬a.isNaN → ¬b.isNaN → (eval .le a b = .ok .t ↔ eval .lt b a = .ok .nil)) ∧
      (a.isNaN ∨ b.isNaN → ∀ test, eval test a b = .ok .nil) ∧
      (left.lt right).map Value.ofBool = (BinaryOp.compare .lt).apply (.scalar left) (.scalar right) ∧
      (left.le right).map Value.ofBool = (BinaryOp.compare .le).apply (.scalar left) (.scalar right) ∧
      ∀ bad, [left, right].find? (fun s => s.number?.isNone) = some bad →
        left.lt right = .error (.typeMismatch "<" "number" bad.typeName) ∧
          left.le right = .error (.typeMismatch "<=" "number" bad.typeName) :=
  ⟨eval_lt_irrefl a, eval_lt_trans, eval_gt a b, eval_ge a b, eval_le_iff, eval_of_isNaN,
    scalar_lt left right, scalar_le left right, fun _ => scalar_blamed⟩

/-- Two steps between an integer and a float lead from an integer to another; a float that is not a number
is below nothing, and of two scalars that are no numbers the left one is blamed. -/
theorem comparisons_coherent_mixed :
    eval .lt (.int 9007199254740992) (.float 9007199254740994) = .ok .t ∧
      eval .lt (.float 9007199254740994) (.int 9007199254740995) = .ok .t ∧
      eval .lt (.int 9007199254740992) (.int 9007199254740995) = .ok .t ∧
      eval .lt (.float 9007199254740994) (.int 9007199254740992) = .ok .nil ∧
      eval .le (.float Binary64.nan) (.int 0) = .ok .nil ∧
      Scalar.lt (.text "a") .nil = .error (.typeMismatch "<" "number" "string") := by
  have up : eval .lt (.int 9007199254740992) (.float 9007199254740994) = .ok .t := rfl
  have up' : eval .lt (.float 9007199254740994) (.int 9007199254740995) = .ok .t := rfl
  obtain ⟨-, trans, -, -, weak, -⟩ := comparisons_coherent (.int 9007199254740992)
    (.float 9007199254740994) (.int 9007199254740995) .nil .nil
  obtain ⟨-, -, -, -, -, unordered, -, -, blamed⟩ :=
    comparisons_coherent (.float Binary64.nan) (.int 0) (.int 0) (.text "a") .nil
  exact ⟨up, up', trans up up', (weak (by decide) (by decide)).1 rfl, unordered (.inl rfl) .le,
    (blamed (.text "a") rfl).1⟩

/-- At most is not transitive: two integers that are one float are below each other as floats. -/
example :
    eval .le (.int 9007199254740993) (.float 9007199254740992) = .ok .t ∧
      eval .le (.float 9007199254740992) (.int 9007199254740992) = .ok .t ∧
      eval .le (.int 9007199254740993) (.int 9007199254740992) = .ok .nil :=
  ⟨rfl, rfl, rfl⟩

end Comparison

end MiniLisp
