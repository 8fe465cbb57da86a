import MiniLisp.Operator.Variadic

/-!
The operands of a variadic operator are checked from the left. Either all of them are accepted, and the
operator gets what they hold, or the first one that is refused is blamed, whatever comes after it
(`Operand.blamed_then`). Both checks, for numbers and for integers, are of one form (`Operand.check`).
-/

namespace MiniLisp

theorem Value.int?_eq_some {v : Value} {n : Int64} : v.int? = some n ↔ v = .int n := by
  obtain ⟨_ | _ | ⟨_ | _⟩ | _⟩ | _ := v <;> simp [int?, Scalar.int?]

theorem Value.number?_eq_some {v : Value} {n : Number} : v.number? = some n ↔ v = .number n := by
  obtain ⟨_ | _ | _ | _⟩ | _ := v <;> simp [number?, Scalar.number?]

namespace Operand

variable {α β : Type} {read? : Value → Option α} {refuse : Value → Cause}

/-- The check that accepts the operands that can be read. -/
def check (read? : Value → Option α) (refuse : Value → Cause) (v : Value) : Except Cause α :=
  match read? v with
  | some a => .ok a
  | none => .error (refuse v)

/-- The first operand that cannot be read. -/
def firstRefused? (read? : Value → Option α) (vs : List Value) : Option Value :=
  vs.find? fun v => (read? v).isNone

theorem number_eq_check (symbol : String) :
    number symbol = check Value.number? fun v => .typeMismatch symbol "number" v.typeName := by
  funext v
  unfold number check
  cases v.number? <;> rfl

theorem integer_eq_check (symbol : String) :
    integer symbol = check Value.int? fun v => .typeMismatch symbol "integer" v.typeName := by
  funext v
  unfold integer check
  cases v.int? <;> rfl

theorem firstRefused?_cons_of_read {v : Value} {a : α} (h : read? v = some a) (vs : List Value) :
    firstRefused? read? (v :: vs) = firstRefused? read? vs := by
  simp [firstRefused?, h]

theorem firstRefused?_cons_of_refused {v : Value} (h : read? v = none) (vs : List Value) :
    firstRefused? read? (v :: vs) = some v := by
  simp [firstRefused?, h]

theorem firstRefused?_append_of_refused {vs : List Value} {v : Value}
    (h : firstRefused? read? vs = some v) (ws : List Value) :
    firstRefused? read? (vs ++ ws) = some v := by
  rw [firstRefused?, List.find?_append, ← firstRefused?, h, Option.some_or]

theorem firstRefused?_append_of_accepted {vs : List Value} (h : firstRefused? read? vs = none)
    (ws : List Value) : firstRefused? read? (vs ++ ws) = firstRefused? read? ws := by
  rw [firstRefused?, List.find?_append, ← firstRefused?, h, Option.none_or, firstRefused?]

/-- An operand is refused if and only if there is a first one. -/
theorem exists_firstRefused? {vs : List Value} :
    (∃ v, firstRefused? read? vs = some v) ↔ ∃ v ∈ vs, read? v = none := by
  rw [← Option.isSome_iff_exists, firstRefused?, List.find?_isSome]
  simp

theorem refused_of_first {vs : List Value} {v : Value} (h : firstRefused? read? vs = some v) :
    v ∈ vs ∧ read? v = none := by
  have refused := List.find?_some h
  exact ⟨List.mem_of_find?_eq_some h, Option.isNone_iff_eq_none.1 refused⟩

/-- All operands are accepted, or there is a first one that is not. -/
theorem accepted_or_refused {wrap : α → Value} (reads : ∀ {v a}, read? v = some a → v = wrap a)
    (vs : List Value) : (∃ as : List α, vs = as.map wrap) ∨ ∃ v, firstRefused? read? vs = some v := by
  induction vs with
  | nil => exact .inl ⟨[], rfl⟩
  | cons v rest ih =>
      cases read : read? v with
      | none => exact .inr ⟨v, firstRefused?_cons_of_refused read rest⟩
      | some a =>
          rw [firstRefused?_cons_of_read read]
          refine ih.imp_left fun ⟨as, accepted⟩ => ⟨a :: as, ?_⟩
          rw [List.map_cons, ← reads read, ← accepted]

theorem accepted_or_refused_cons {wrap : α → Value}
    (reads : ∀ {v a}, read? v = some a → v = wrap a) (first : Value) (rest : List Value) :
    (∃ (a : α) (as : List α), first :: rest = (a :: as).map wrap) ∨
      ∃ v, firstRefused? read? (first :: rest) = some v := by
  rcases accepted_or_refused reads (first :: rest) with ⟨as, same⟩ | refused
  · cases as with
    | nil => cases same
    | cons a as => exact .inl ⟨a, as, same⟩
  · exact .inr refused

theorem mapM_check_of_refused {vs : List Value} {v : Value} (h : firstRefused? read? vs = some v) :
    vs.mapM (check read? refuse) = .error (refuse v) := by
  induction vs with
  | nil => cases h
  | cons w rest ih =>
      rw [List.mapM_cons]
      cases read : read? w with
      | none =>
          rw [firstRefused?_cons_of_refused read] at h
          cases h
          simp only [check, read]
          rfl
      | some a =>
          rw [firstRefused?_cons_of_read read] at h
          simp only [check, read, ih h]
          rfl

/-- Where an operand is refused, nothing is computed. -/
theorem blamed_then {first v : Value} {rest : List Value}
    (h : firstRefused? read? (first :: rest) = some v) (next : α → List α → Except Cause β) :
    (do
      let a ← check read? refuse first
      let as ← rest.mapM (check read? refuse)
      next a as) = .error (refuse v) := by
  cases read : read? first with
  | none =>
      rw [firstRefused?_cons_of_refused read] at h
      cases h
      simp only [check, read]
      rfl
  | some a =>
      rw [firstRefused?_cons_of_read read] at h
      rw [mapM_check_of_refused h]
      simp only [check, read]
      rfl

theorem numbers_blamed {symbol : String} {first v : Value} {rest : List Value}
    (h : firstRefused? Value.number? (first :: rest) = some v)
    (next : Number → List Number → Except Cause β) :
    (do
      let a ← number symbol first
      let ns ← numbers symbol rest
      next a ns) = .error (.typeMismatch symbol "number" v.typeName) := by
  simp only [numbers, number_eq_check]
  exact blamed_then h next

theorem integers_blamed {symbol : String} {first v : Value} {rest : List Value}
    (h : firstRefused? Value.int? (first :: rest) = some v)
    (next : Int64 → List Int64 → Except Cause β) :
    (do
      let a ← integer symbol first
      let ns ← integers symbol rest
      next a ns) = .error (.typeMismatch symbol "integer" v.typeName) := by
  simp only [integers, integer_eq_check]
  exact blamed_then h next

@[simp] theorem numbers_number (symbol : String) (ns : List Number) :
    numbers symbol (ns.map .number) = .ok ns := by
  induction ns with
  | nil => rfl
  | cons n rest ih =>
      rw [numbers] at ih
      rw [numbers, List.map_cons, List.mapM_cons, ih]
      rfl

@[simp] theorem integers_int (symbol : String) (ns : List Int64) :
    integers symbol (ns.map .int) = .ok ns := by
  induction ns with
  | nil => rfl
  | cons n rest ih =>
      rw [integers] at ih
      rw [integers, List.map_cons, List.mapM_cons, ih]
      rfl

/-- Where all operands are numbers, the operator gets them. -/
theorem numbers_then (symbol : String) (first : Number) (rest : List Number)
    (next : Number → List Number → Except Cause β) :
    (do
      let a ← number symbol (.number first)
      let ns ← numbers symbol (rest.map .number)
      next a ns) = next first rest := by
  rw [number_number, numbers_number]
  rfl

theorem integers_then (symbol : String) (first : Int64) (rest : List Int64)
    (next : Int64 → List Int64 → Except Cause β) :
    (do
      let a ← integer symbol (.int first)
      let ns ← integers symbol (rest.map .int)
      next a ns) = next first rest := by
  rw [integer_int, integers_int]
  rfl

/-- All operands are numbers, or there is a first one that is none. -/
theorem numbers_or_refused (first : Value) (rest : List Value) :
    (∃ (n : Number) (ns : List Number), first :: rest = (n :: ns).map .number) ∨
      ∃ v, firstRefused? Value.number? (first :: rest) = some v :=
  accepted_or_refused_cons Value.number?_eq_some.1 first rest

theorem integers_or_refused (first : Value) (rest : List Value) :
    (∃ (n : Int64) (ns : List Int64), first :: rest = (n :: ns).map .int) ∨
      ∃ v, firstRefused? Value.int? (first :: rest) = some v :=
  accepted_or_refused_cons Value.int?_eq_some.1 first rest

end Operand

end MiniLisp
