import MiniLisp.Proofs.Arithmetic

/-!
How variadic operators fail. The types of all operands are checked first, so the first operand of a wrong
type is reported even where an operand before it would overflow or divide by zero. After the checks only
arithmetic on integers fails (`VariadicOp.failed_of_numbers`). Main statement: every failure of every operator, and
the error that it reports (`VariadicOp.failures_classified`).
-/

namespace MiniLisp

/-- The operator that an error names. -/
def Cause.operator? : Cause → Option String
  | typeMismatch operator _ _ => some operator
  | missingOperands operator => some operator
  | integerOverflow operation => some operation
  | _ => none

theorem Value.number?_of_mem_map {v : Value} {ns : List Number} (h : v ∈ ns.map Value.number) :
    v.number? ≠ none := by
  obtain ⟨n, -, rfl⟩ := List.mem_map.1 h
  exact nofun

theorem Value.int?_of_mem_map {v : Value} {ks : List Int64} (h : v ∈ ks.map Value.int) :
    v.int? ≠ none := by
  obtain ⟨k, -, rfl⟩ := List.mem_map.1 h
  exact nofun

/-! ### Arithmetic on numbers -/

theorem Number.ints_or_float (ns : List Number) :
    (∃ ks : List Int64, ns = ks.map .int) ∨ ∃ x, .float x ∈ ns := by
  induction ns with
  | nil => exact .inl ⟨[], rfl⟩
  | cons n rest ih =>
      cases n with
      | float x => exact .inr ⟨x, List.mem_cons_self⟩
      | int k =>
          rcases ih with ⟨ks, rfl⟩ | ⟨x, mem⟩
          · exact .inl ⟨k :: ks, rfl⟩
          · exact .inr ⟨x, List.mem_cons_of_mem _ mem⟩

theorem Number.mapM_int?_of_float {x : Float} {ns : List Number} (h : .float x ∈ ns) :
    ns.mapM Number.int? = none := by
  induction ns with
  | nil => cases h
  | cons n rest ih =>
      rw [List.mapM_cons]
      rcases List.mem_cons.1 h with rfl | mem
      · rfl
      · rw [ih mem]
        cases n <;> rfl

/-- One float among the operands makes the result a float. -/
theorem Arithmetic.apply_of_float (op : Arithmetic) {x : Float} {first : Number} {rest : List Number}
    (h : .float x ∈ first :: rest) : ∃ y, op.apply first rest = .ok (.float y) := by
  unfold apply
  rcases List.mem_cons.1 h with rfl | mem
  · exact ⟨_, rfl⟩
  · rw [Number.mapM_int?_of_float mem]
    cases first <;> exact ⟨_, rfl⟩

namespace VariadicOp

/-- Numbers are what the operator wants. -/
def isNumeric (op : VariadicOp) : Bool := !op.isLogical && !op.isBitwise

variable {op : VariadicOp} {first v : Value} {rest : List Value}

/-- The first operand that is no number is blamed before anything is computed. -/
theorem apply_of_no_number (numeric : op.isNumeric)
    (h : Operand.firstRefused? Value.number? (first :: rest) = some v) :
    op.apply (first :: rest) = .error (.typeMismatch op.symbol "number" v.typeName) := by
  cases op with
  | connective c => cases numeric
  | bitwise b => cases numeric
  | equal | notEqual | extremum e | arithmetic o => exact Operand.numbers_blamed h _

theorem apply_of_no_integer (bitwise : op.isBitwise)
    (h : Operand.firstRefused? Value.int? (first :: rest) = some v) :
    op.apply (first :: rest) = .error (.typeMismatch op.symbol "integer" v.typeName) := by
  cases op with
  | bitwise b => exact Operand.integers_blamed h _
  | connective c => cases bitwise
  | equal | notEqual | extremum e | arithmetic o => cases bitwise

theorem apply_integers (bitwise : op.isBitwise) (first : Int64) (rest : List Int64) :
    ∃ v, op.apply ((first :: rest).map .int) = .ok v := by
  cases op with
  | bitwise b => exact ⟨_, Operand.integers_then _ first rest _⟩
  | connective c => cases bitwise
  | equal | notEqual | extremum e | arithmetic o => cases bitwise

/-- On numbers, an operator that does no arithmetic succeeds. -/
theorem apply_numbers (numeric : op.isNumeric) (plain : ∀ o, op ≠ .arithmetic o) (first : Number)
    (rest : List Number) : ∃ v, op.apply ((first :: rest).map .number) = .ok v := by
  cases op with
  | connective c => cases numeric
  | bitwise b => cases numeric
  | equal | notEqual | extremum e => exact ⟨_, Operand.numbers_then _ first rest _⟩
  | arithmetic o => exact absurd rfl (plain o)

/-- A float among numbers keeps arithmetic from failing. -/
theorem apply_float (o : Arithmetic) {x : Float} {first : Number} {rest : List Number}
    (h : .float x ∈ first :: rest) :
    ∃ y, (arithmetic o).apply ((first :: rest).map .number) = .ok (.float y) := by
  obtain ⟨y, result⟩ := o.apply_of_float h
  exact ⟨y, by rw [apply_arithmetic, result]; rfl⟩

theorem refused_of_ints (o : Arithmetic) {first : Int64} {rest : List Int64} {cause : Cause}
    (h : (arithmetic o).apply ((first :: rest).map .int) = .error cause) :
    cause = .divisionByZero ∨ cause = .integerOverflow (arithmetic o).symbol := by
  rw [apply_ints] at h
  cases folded : rest.foldlM o.onInts first with
  | ok k =>
      rw [folded] at h
      cases h
  | error other =>
      rw [folded] at h
      cases h
      obtain ⟨i, -, -, rfl⟩ := Arithmetic.foldlM_eq_error.1 folded
      unfold Arithmetic.refusal
      split
      · exact .inl rfl
      · exact .inr rfl

/-- On numbers, only arithmetic on integers fails, and it never blames a type. -/
theorem failed_of_numbers (numeric : op.isNumeric) {first : Number} {rest : List Number} {cause : Cause}
    (h : op.apply ((first :: rest).map .number) = .error cause) :
    ∃ o, op = .arithmetic o ∧ (∃ ks : List Int64, first :: rest = ks.map .int) ∧
      (cause = .divisionByZero ∨ cause = .integerOverflow op.symbol) := by
  by_cases plain : ∀ o, op ≠ .arithmetic o
  · obtain ⟨v, result⟩ := apply_numbers numeric plain first rest
    rw [result] at h
    cases h
  · obtain ⟨o, rfl⟩ : ∃ o, op = .arithmetic o := by simpa using plain
    rcases Number.ints_or_float (first :: rest) with ⟨ks, same⟩ | ⟨x, mem⟩
    · refine ⟨o, rfl, ⟨ks, same⟩, ?_⟩
      cases ks with
      | nil => cases same
      | cons k ks =>
          have failed : (arithmetic o).apply ((k :: ks).map .int) = .error cause := by
            rw [← h, same, List.map_map]
            rfl
          exact refused_of_ints o failed
    · obtain ⟨y, result⟩ := apply_float o mem
      rw [result] at h
      cases h

/-- A float among numbers keeps every operator from failing. -/
theorem succeeds_of_float (numeric : op.isNumeric) {x : Float} {first : Number} {rest : List Number}
    (h : .float x ∈ first :: rest) : ∃ v, op.apply ((first :: rest).map .number) = .ok v := by
  cases result : op.apply ((first :: rest).map .number) with
  | ok v => exact ⟨v, rfl⟩
  | error cause =>
      obtain ⟨-, -, ⟨ks, ints⟩, -⟩ := failed_of_numbers numeric result
      rw [ints] at h
      obtain ⟨k, -, same⟩ := List.mem_map.1 h
      cases same

/-- How an operator fails on given operands. -/
structure Failures (op : VariadicOp) (vs : List Value) : Prop where
  /-- Operands are missing if and only if there are none. -/
  missing : (∃ symbol, op.apply vs = .error (.missingOperands symbol)) ↔ vs = []
  /-- A connective takes whatever it is given. -/
  logical : op.isLogical → vs ≠ [] → ∃ v, op.apply vs = .ok v
  /-- A bitwise operator fails if and only if some operand is no integer. -/
  bitwise : op.isBitwise → vs ≠ [] →
    ((∃ cause, op.apply vs = .error cause) ↔ ∃ v ∈ vs, v.int? = none)
  /-- It blames the first operand that is no integer. -/
  integer : op.isBitwise → ∀ v, vs.find? (fun v => v.int?.isNone) = some v →
    op.apply vs = .error (.typeMismatch op.symbol "integer" v.typeName)
  /-- Every other operator reports a type if and only if some operand is no number. -/
  numeric : op.isNumeric →
    ((∃ operator expected got, op.apply vs = .error (.typeMismatch operator expected got)) ↔
      ∃ v ∈ vs, v.number? = none)
  /-- It blames the first operand that is no number, whatever the operands before it come to. -/
  number : op.isNumeric → ∀ v, vs.find? (fun v => v.number?.isNone) = some v →
    op.apply vs = .error (.typeMismatch op.symbol "number" v.typeName)
  /-- On numbers, only `+`, `-`, `*` and `/` on integers alone can fail. -/
  computed : op.isNumeric → vs ≠ [] → (∀ v ∈ vs, v.number? ≠ none) →
    ∀ cause, op.apply vs = .error cause → ∃ o, op = .arithmetic o ∧ (∀ v ∈ vs, v.int? ≠ none) ∧
      (cause = .divisionByZero ∨ cause = .integerOverflow op.symbol)
  /-- With a float among numbers nothing fails, and arithmetic gives a float. -/
  float : op.isNumeric → (∀ v ∈ vs, v.number? ≠ none) → (∃ x, .float x ∈ vs) →
    (∃ v, op.apply vs = .ok v) ∧ ∀ o, op = .arithmetic o → ∃ x, op.apply vs = .ok (.float x)
  /-- The operator that is reported is the operator itself. -/
  named : ∀ cause symbol, op.apply vs = .error cause → cause.operator? = some symbol → symbol = op.symbol

theorem kinds (op : VariadicOp) : op.isLogical ∨ op.isBitwise ∨ op.isNumeric := by
  unfold isNumeric
  cases op.isLogical <;> cases op.isBitwise <;> simp

theorem apply_logical (logical : op.isLogical) (first : Value) (rest : List Value) :
    ∃ v, op.apply (first :: rest) = .ok v := by
  cases op with
  | connective c => exact ⟨_, rfl⟩
  | equal | notEqual | extremum e | arithmetic o | bitwise b => cases logical

theorem bitwise_cases (bitwise : op.isBitwise) (first : Value) (rest : List Value) :
    (∃ v, Operand.firstRefused? Value.int? (first :: rest) = some v ∧
      op.apply (first :: rest) = .error (.typeMismatch op.symbol "integer" v.typeName)) ∨
    ((∀ v ∈ first :: rest, v.int? ≠ none) ∧ ∃ v, op.apply (first :: rest) = .ok v) := by
  rcases Operand.integers_or_refused first rest with ⟨n, ns, same⟩ | ⟨v, found⟩
  · rw [same]
    exact .inr ⟨fun v mem => Value.int?_of_mem_map mem, apply_integers bitwise n ns⟩
  · exact .inl ⟨v, found, apply_of_no_integer bitwise found⟩

theorem numeric_cases (numeric : op.isNumeric) (first : Value) (rest : List Value) :
    (∃ v, Operand.firstRefused? Value.number? (first :: rest) = some v ∧
      op.apply (first :: rest) = .error (.typeMismatch op.symbol "number" v.typeName)) ∨
    ∃ (n : Number) (ns : List Number), first :: rest = (n :: ns).map .number := by
  rcases Operand.numbers_or_refused first rest with numbers | ⟨v, found⟩
  · exact .inr numbers
  · exact .inl ⟨v, found, apply_of_no_number numeric found⟩

theorem all_numbers (h : ∀ v ∈ first :: rest, v.number? ≠ none) :
    ∃ (n : Number) (ns : List Number), first :: rest = (n :: ns).map .number := by
  rcases Operand.numbers_or_refused first rest with numbers | ⟨v, found⟩
  · exact numbers
  · obtain ⟨w, mem, refused⟩ := Operand.exists_firstRefused?.1 ⟨v, found⟩
    exact absurd refused (h w mem)

/-- Every failure on some operands names the operator or is a division by zero. -/
theorem cause_of_failure {cause : Cause} (h : op.apply (first :: rest) = .error cause) :
    (∃ expected got, cause = .typeMismatch op.symbol expected got) ∨
      cause = .divisionByZero ∨ cause = .integerOverflow op.symbol := by
  rcases op.kinds with logical | bitwise | numeric
  · obtain ⟨v, result⟩ := apply_logical logical first rest
    rw [result] at h
    cases h
  · rcases bitwise_cases bitwise first rest with ⟨v, -, failed⟩ | ⟨-, v, result⟩
    · rw [failed] at h
      cases h
      exact .inl ⟨_, _, rfl⟩
    · rw [result] at h
      cases h
  · rcases numeric_cases numeric first rest with ⟨v, -, failed⟩ | ⟨n, ns, same⟩
    · rw [failed] at h
      cases h
      exact .inl ⟨_, _, rfl⟩
    · rw [same] at h
      obtain ⟨-, -, -, which⟩ := failed_of_numbers numeric h
      exact .inr which

theorem fails_iff_of_bitwise (bitwise : op.isBitwise) (first : Value) (rest : List Value) :
    (∃ cause, op.apply (first :: rest) = .error cause) ↔ ∃ v ∈ first :: rest, v.int? = none := by
  rcases bitwise_cases bitwise first rest with ⟨v, found, failed⟩ | ⟨integers, v, result⟩
  · exact ⟨fun _ => Operand.exists_firstRefused?.1 ⟨v, found⟩, fun _ => ⟨_, failed⟩⟩
  · rw [result]
    exact ⟨nofun, fun ⟨v, mem, refused⟩ => absurd refused (integers v mem)⟩

theorem mismatch_iff_of_numeric (numeric : op.isNumeric) (first : Value) (rest : List Value) :
    (∃ operator expected got,
      op.apply (first :: rest) = .error (.typeMismatch operator expected got)) ↔
      ∃ v ∈ first :: rest, v.number? = none := by
  rcases numeric_cases numeric first rest with ⟨v, found, failed⟩ | ⟨n, ns, same⟩
  · exact ⟨fun _ => Operand.exists_firstRefused?.1 ⟨v, found⟩, fun _ => ⟨_, _, _, failed⟩⟩
  · rw [same]
    refine ⟨fun ⟨_, _, _, failed⟩ => ?_, fun ⟨v, mem, refused⟩ => ?_⟩
    · obtain ⟨-, -, -, which⟩ := failed_of_numbers numeric failed
      rcases which with which | which <;> cases which
    · exact absurd refused (Value.number?_of_mem_map mem)

theorem failed_of_all_numbers (numeric : op.isNumeric)
    (numbers : ∀ v ∈ first :: rest, v.number? ≠ none) {cause : Cause}
    (failed : op.apply (first :: rest) = .error cause) :
    ∃ o, op = .arithmetic o ∧ (∀ v ∈ first :: rest, v.int? ≠ none) ∧
      (cause = .divisionByZero ∨ cause = .integerOverflow op.symbol) := by
  obtain ⟨n, ns, same⟩ := all_numbers numbers
  rw [same] at failed ⊢
  obtain ⟨o, arithmetic, ⟨ks, ints⟩, which⟩ := failed_of_numbers numeric failed
  refine ⟨o, arithmetic, fun v mem => ?_, which⟩
  rw [ints, List.map_map] at mem
  exact Value.int?_of_mem_map mem

theorem float_of_all_numbers (numeric : op.isNumeric)
    (numbers : ∀ v ∈ first :: rest, v.number? ≠ none) {x : Float} (mem : .float x ∈ first :: rest) :
    (∃ v, op.apply (first :: rest) = .ok v) ∧
      ∀ o, op = .arithmetic o → ∃ y, op.apply (first :: rest) = .ok (.float y) := by
  obtain ⟨n, ns, same⟩ := all_numbers numbers
  rw [same] at mem ⊢
  have float : .float x ∈ n :: ns := by simpa using mem
  refine ⟨succeeds_of_float numeric float, ?_⟩
  rintro o rfl
  exact apply_float o float

/-- Without operands every operator reports that they are missing. -/
theorem failures_nil (op : VariadicOp) : op.Failures [] := by
  have none_given : op.apply [] = .error (.missingOperands op.symbol) := rfl
  exact {
    missing := ⟨fun _ => rfl, fun _ => ⟨_, none_given⟩⟩
    logical := fun _ given => absurd rfl given
    bitwise := fun _ given => absurd rfl given
    integer := nofun
    numeric := fun _ => by simp [none_given]
    number := nofun
    computed := fun _ given => absurd rfl given
    float := fun _ _ ⟨x, mem⟩ => absurd mem List.not_mem_nil
    named := fun cause symbol failed reported => by
      rw [none_given] at failed
      cases failed
      exact (Option.some.inj reported).symm }

theorem failures_cons (op : VariadicOp) (first : Value) (rest : List Value) :
    op.Failures (first :: rest) where
  missing := by
    refine ⟨fun ⟨symbol, failed⟩ => ?_, nofun⟩
    rcases cause_of_failure failed with ⟨_, _, same⟩ | same | same <;> cases same
  logical := fun logical _ => apply_logical logical first rest
  bitwise := fun bitwise _ => fails_iff_of_bitwise bitwise first rest
  integer := fun bitwise _ found => apply_of_no_integer bitwise found
  numeric := fun numeric => mismatch_iff_of_numeric numeric first rest
  number := fun numeric _ found => apply_of_no_number numeric found
  computed := fun numeric _ numbers _ failed => failed_of_all_numbers numeric numbers failed
  float := fun numeric numbers ⟨_, mem⟩ => float_of_all_numbers numeric numbers mem
  named := fun cause symbol failed reported => by
    rcases cause_of_failure failed with ⟨_, _, rfl⟩ | rfl | rfl <;> cases reported <;> rfl

/-- Whatever the operands, each operator fails exactly where its class says so, and with the error that
its class says. -/
theorem failures_classified (op : VariadicOp) (vs : List Value) : op.Failures vs := by
  cases vs with
  | nil => exact failures_nil op
  | cons first rest => exact failures_cons op first rest

end VariadicOp

end MiniLisp
