import Mathlib
import MiniLisp.Proofs.Failures
import MiniLisp.Proofs.FloatOrder

/-!
Equality of numbers. Equal numbers have one tag and equal payloads, and floats are equal if they have one rank;
so equality is symmetric and transitive, but a float that is not a number does not equal itself. `=` compares
every operand with the first one only. That is a comparison of all pairs (`Number.allSame_iff`): any two
operands that equal the first equal each other, and one that equals nothing is different from the first or is
the first itself. Main statement: the order of the operands decides nothing (`VariadicOp.equality_pairwise`).
-/

namespace MiniLisp

namespace Number

variable {a b c first : Number} {rest ns ms : List Number}

/-- One tag and equal payloads. -/
inductive Equal : Number → Number → Prop
  | int (n : Int64) : Equal (.int n) (.int n)
  | float {x y : Float} (h : x == y) : Equal (.float x) (.float y)

theorem same_iff : a.same b ↔ Equal a b := by
  constructor
  · intro h
    cases a with
    | int m =>
        cases b with
        | int n =>
            have same : m = n := eq_of_beq h
            exact same ▸ .int m
        | float y => cases h
    | float x =>
        cases b with
        | int n => cases h
        | float y => exact .float h
  · intro h
    cases h with
    | int n => exact beq_self_eq_true n
    | float h => exact h

theorem Equal.symm (h : Equal a b) : Equal b a := by
  cases h with
  | int n => exact .int n
  | float h =>
      obtain ⟨ranked, same⟩ := Binary64.beq_iff.1 h
      exact .float (Binary64.beq_iff.2 ⟨same ▸ ranked, same.symm⟩)

theorem Equal.trans (h : Equal a b) (h' : Equal b c) : Equal a c := by
  cases h with
  | int n => exact h'
  | float h =>
      cases h' with
      | float h' =>
          obtain ⟨ranked, same⟩ := Binary64.beq_iff.1 h
          obtain ⟨-, same'⟩ := Binary64.beq_iff.1 h'
          exact .float (Binary64.beq_iff.2 ⟨ranked, same.trans same'⟩)

/-- Comparing with the first is comparing all pairs. -/
theorem allSame_iff : first.allSame rest ↔ (first :: rest).Pairwise Equal := by
  have compared : first.allSame rest ↔ ∀ n ∈ rest, Equal n first := by
    rw [allSame, List.all_eq_true]
    exact forall₂_congr fun n _ => same_iff
  rw [compared, List.pairwise_cons]
  constructor
  · intro equal
    refine ⟨fun n mem => (equal n mem).symm, List.pairwise_of_forall_mem_list fun m memM n memN => ?_⟩
    exact (equal m memM).trans (equal n memN).symm
  · rintro ⟨equal, -⟩ n mem
    exact (equal n mem).symm

theorem pairwise_iff_positions :
    ns.Pairwise Equal ↔ ∀ i j : Fin ns.length, i ≠ j → Equal (ns.get i) (ns.get j) := by
  rw [List.pairwise_iff_get]
  constructor
  · intro equal i j ne
    rcases lt_or_gt_of_ne ne with lt | gt
    · exact equal i j lt
    · exact (equal j i gt).symm
  · intro equal i j lt
    exact equal i j lt.ne

theorem pairwise_perm (h : ns.Perm ms) : ns.Pairwise Equal ↔ ms.Pairwise Equal :=
  h.pairwise_iff Equal.symm

end Number

namespace VariadicOp

variable {ns : List Number} {vs : List Value}

/-- `=` says of the operands whether they are equal, and `/=` says the opposite. -/
def Verdict (vs : List Value) (equal : Bool) : Prop :=
  VariadicOp.equal.apply vs = .ok (.ofBool equal) ∧ notEqual.apply vs = .ok (.ofBool !equal)

theorem verdict_cons (first : Number) (rest : List Number) :
    Verdict ((first :: rest).map .number) (first.allSame rest) :=
  ⟨Operand.numbers_then _ first rest _, Operand.numbers_then _ first rest _⟩

theorem verdict_of_numbers (given : ns ≠ []) :
    ∃ b : Bool, (b ↔ ns.Pairwise Number.Equal) ∧ Verdict (ns.map .number) b := by
  cases ns with
  | nil => exact absurd rfl given
  | cons first rest => exact ⟨first.allSame rest, Number.allSame_iff, verdict_cons first rest⟩

/-- The same numbers in another order get the same verdict. -/
theorem Verdict.perm {b : Bool} (pairwise : b ↔ ns.Pairwise Number.Equal)
    (given : ns ≠ []) {ms : List Number} (h : ns.Perm ms) : Verdict (ms.map .number) b := by
  have given' : ms ≠ [] := fun none => given (List.perm_nil.1 (none ▸ h))
  obtain ⟨b', pairwise', verdict⟩ := verdict_of_numbers given'
  have agree : b = b' := Bool.eq_iff_iff.2
    (pairwise.trans ((Number.pairwise_perm h).trans pairwise'.symm))
  rwa [agree]

theorem refused_of_no_number (h : ∃ v ∈ vs, v.number? = none) :
    ∃ v ∈ vs, v.number? = none ∧ ∀ op : VariadicOp, op.isNumeric →
      op.apply vs = .error (.typeMismatch op.symbol "number" v.typeName) := by
  obtain ⟨v, found⟩ := Operand.exists_firstRefused?.2 h
  obtain ⟨mem, refused⟩ := Operand.refused_of_first found
  refine ⟨v, mem, refused, fun op numeric => ?_⟩
  cases vs with
  | nil => cases found
  | cons first rest => exact apply_of_no_number numeric found

/-- On numbers, `=` tells whether any two operands at different places are equal, and `/=` tells the opposite,
in whichever order the operands stand. With an operand that is no number both fail in every order. -/
theorem equality_pairwise :
    (∀ ns : List Number, ns ≠ [] → ∃ b : Bool,
        (b ↔ ∀ i j : Fin ns.length, i ≠ j → Number.Equal (ns.get i) (ns.get j)) ∧
          ∀ ms, ns.Perm ms → equal.apply (ms.map .number) = .ok (.ofBool b) ∧
            notEqual.apply (ms.map .number) = .ok (.ofBool !b)) ∧
      ∀ vs : List Value, (∃ v ∈ vs, v.number? = none) → ∀ ws, vs.Perm ws →
        ∃ v ∈ ws, v.number? = none ∧
          equal.apply ws = .error (.typeMismatch equal.symbol "number" v.typeName) ∧
          notEqual.apply ws = .error (.typeMismatch notEqual.symbol "number" v.typeName) := by
  constructor
  · intro ns given
    obtain ⟨b, pairwise, -⟩ := verdict_of_numbers given
    exact ⟨b, pairwise.trans Number.pairwise_iff_positions, fun ms h => Verdict.perm pairwise given h⟩
  · rintro vs ⟨v, mem, refused⟩ ws h
    obtain ⟨w, memW, refusedW, failed⟩ := refused_of_no_number ⟨v, h.mem_iff.1 mem, refused⟩
    exact ⟨w, memW, refusedW, failed equal rfl, failed notEqual rfl⟩

/-- The two zeros are equal in either order, and an operand that is no number is blamed in either order. -/
theorem equality_pairwise_zeros :
    equal.apply [.float (-0), .float 0] = .ok .t ∧ notEqual.apply [.float (-0), .float 0] = .ok .nil ∧
      ∃ v ∈ [Value.t, .int 1], v.number? = none ∧
        equal.apply [.t, .int 1] = .error (.typeMismatch equal.symbol "number" v.typeName) := by
  obtain ⟨numbers, others⟩ := equality_pairwise
  have zeros : ∀ i j : Fin 2, i ≠ j → Number.Equal ([.float 0, .float (-0)].get i)
      ([.float 0, .float (-0)].get j) := by
    intro i j ne
    fin_cases i <;> fin_cases j
    · exact absurd rfl ne
    · exact .float rfl
    · exact .float rfl
    · exact absurd rfl ne
  obtain ⟨b, pairwise, verdict⟩ := numbers [.float 0, .float (-0)] (List.cons_ne_nil _ _)
  cases pairwise.2 zeros
  obtain ⟨yes, no⟩ := verdict [.float (-0), .float 0] (List.Perm.swap _ _ _)
  obtain ⟨v, mem, refused, failed, -⟩ := others [.int 1, .t] ⟨.t, by decide, rfl⟩ [.t, .int 1]
    (List.Perm.swap _ _ _)
  exact ⟨yes, no, v, mem, refused, failed⟩

/-- A float that is not a number differs from itself, but alone it has nothing to differ from. -/
example :
    equal.apply [.float Binary64.nan, .float Binary64.nan] = .ok .nil ∧
      equal.apply [.float Binary64.nan] = .ok .t :=
  ⟨rfl, rfl⟩

end VariadicOp

end MiniLisp
