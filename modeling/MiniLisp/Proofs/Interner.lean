import MiniLisp.Interner

/-!
What an interner knows. Its two tables are inverse to each other, and interning keeps them so
(`Interner.Consistent.intern`); a string that is known keeps its name (`Interner.Extends`). So a
sequence of forms that is built step by step is the sequence with every string replaced by the name
that it has at the end (`Interner.forms_eq`).
-/

namespace MiniLisp

theorem FunctionDef.map_congr {ν μ : Type} {f g : ν → μ} (fn : FunctionDef ν)
    (h : ∀ x ∈ fn.names, f x = g x) : fn.map f = fn.map g := by
  simp only [FunctionDef.names, List.forall_mem_append, List.forall_mem_singleton] at h
  obtain ⟨⟨body, name⟩, params⟩ := h
  rw [FunctionDef.map, FunctionDef.map, name, List.map_congr_left params,
    Expr.mapAll_congr fn.body body]

theorem Form.map_congr {ν μ : Type} {f g : ν → μ} (form : Form ν)
    (h : ∀ x ∈ form.names, f x = g x) : form.map f = form.map g := by
  cases form with
  | expr e => exact congrArg Form.expr (e.map_congr h)
  | function fn => exact congrArg Form.function (fn.map_congr h)

namespace Interner

variable {table later : Interner} {s t : String} {n : Name}

/-- The vector and the dictionary are inverse to each other. -/
def Consistent (table : Interner) : Prop :=
  ∀ s n, table.index.get? s = some n ↔ table.strings[n.raw]? = some s

/-- Every string that the first interner knows has the same name in the second. -/
def Extends (table later : Interner) : Prop :=
  ∀ s n, table.index.get? s = some n → later.index.get? s = some n

/-- The string was interned before. -/
def Knows (table : Interner) (s : String) : Prop := table.index.get? s = some (table.nameOf s)

theorem Extends.refl (table : Interner) : Extends table table := fun _ _ => id

theorem Extends.trans {last : Interner} (h : Extends table later) (h' : Extends later last) :
    Extends table last := fun s n known => h' s n (h s n known)

theorem nameOf_of_index (h : table.index.get? s = some n) : table.nameOf s = n := by
  unfold nameOf intern
  rw [h]

theorem Knows.extends (h : table.Knows s) (grown : Extends table later) : later.Knows s := by
  have known := grown s _ h
  rw [Knows, nameOf_of_index known, known]

theorem nameOf_extends (h : table.Knows s) (grown : Extends table later) :
    later.nameOf s = table.nameOf s := nameOf_of_index (grown s _ h)

/-! ### One string -/

theorem intern_of_known (h : table.index.get? s = some n) : table.intern s = (n, table) := by
  unfold intern
  rw [h]

theorem intern_of_unknown (h : table.index.get? s = none) :
    table.intern s = (⟨table.strings.size⟩,
      ⟨table.strings.push s, table.index.set s ⟨table.strings.size⟩⟩) := by
  unfold intern
  rw [h]

theorem knows_intern (table : Interner) (s : String) : (table.intern s).2.Knows s := by
  cases h : table.index.get? s with
  | some n =>
      rw [intern_of_known h, Knows, nameOf_of_index h]
      exact h
  | none =>
      have known : (table.intern s).2.index.get? s = some ⟨table.strings.size⟩ := by
        rw [intern_of_unknown h]
        exact Dictionary.get?_set_self _ s _
      rw [Knows, nameOf_of_index known, known]

theorem extends_intern (table : Interner) (s : String) : Extends table (table.intern s).2 := by
  intro t n known
  cases h : table.index.get? s with
  | some m =>
      rw [intern_of_known h]
      exact known
  | none =>
      have ne : s ≠ t := by
        rintro rfl
        rw [h] at known
        cases known
      rw [intern_of_unknown h]
      exact (Dictionary.get?_set_of_ne _ ne _).trans known

theorem consistent_new : new.Consistent := by
  intro s n
  obtain ⟨raw⟩ := n
  by_cases hs : "" = s
  · subst hs
    cases raw with
    | zero => decide
    | succ raw => simp [new, Name.empty]
  · cases raw with
    | zero => simp [new, Dictionary.get?_set, hs]
    | succ raw => simp [new, Dictionary.get?_set, hs]

theorem Consistent.intern (h : table.Consistent) (s : String) : (table.intern s).2.Consistent := by
  cases known : table.index.get? s with
  | some n =>
      rw [intern_of_known known]
      exact h
  | none =>
      rw [intern_of_unknown known]
      intro t n
      show (table.index.set s _).get? t = some n ↔ (table.strings.push s)[n.raw]? = some t
      rw [Dictionary.get?_set, Array.getElem?_push]
      obtain ⟨raw⟩ := n
      by_cases hs : s = t
      · subst hs
        by_cases hr : raw = table.strings.size
        · simp [hr]
        · have absent : table.strings[raw]? ≠ some s := by
            intro stored
            have used := (h s ⟨raw⟩).2 stored
            rw [known] at used
            cases used
          simp [hr, absent, Ne.symm hr]
      · have absent : table.strings[table.strings.size]? = none := by simp
        by_cases hr : raw = table.strings.size
        · subst hr
          have unknown := h t ⟨table.strings.size⟩
          simp [hs, unknown]
        · simpa [hs, hr] using h t ⟨raw⟩

/-- Known strings with one name are one string. -/
theorem Consistent.eq_of_index (h : table.Consistent) (hs : table.index.get? s = some n)
    (ht : table.index.get? t = some n) : s = t := by
  have first := (h s n).1 hs
  have second := (h t n).1 ht
  exact Option.some.inj (first.symm.trans second)

theorem Consistent.lookup_of_index (h : table.Consistent) (hs : table.index.get? s = some n) :
    table.lookup n = s := by
  rw [lookup, (h s n).1 hs]
  rfl

/-- The name that an unknown string would get is not in use. -/
theorem Consistent.nameOf_of_unknown (h : table.Consistent) (hs : table.index.get? s = none) :
    table.index.get? t ≠ some (table.nameOf s) := by
  unfold nameOf
  rw [intern_of_unknown hs]
  intro used
  have stored := (h t _).1 used
  simp at stored

/-! ### Many strings -/

theorem extends_internAll (table : Interner) (ss : List String) :
    Extends table (table.internAll ss) := by
  induction ss generalizing table with
  | nil => exact .refl table
  | cons s rest ih => exact (table.extends_intern s).trans (ih _)

theorem knows_internAll (table : Interner) {ss : List String} (mem : s ∈ ss) :
    (table.internAll ss).Knows s := by
  induction ss generalizing table with
  | nil => cases mem
  | cons first rest ih =>
      rcases List.mem_cons.1 mem with rfl | mem
      · exact (table.knows_intern s).extends (extends_internAll _ rest)
      · exact ih _ mem

theorem Consistent.internAll (h : table.Consistent) (ss : List String) :
    (table.internAll ss).Consistent := by
  induction ss generalizing table with
  | nil => exact h
  | cons s rest ih => exact ih (h.intern s)

/-! ### Forms -/

theorem extends_forms (table : Interner) (program : List (Form String)) :
    Extends table (table.forms program).2 := by
  induction program generalizing table with
  | nil => exact .refl table
  | cons form rest ih => exact (table.extends_internAll form.names).trans (ih _)

theorem Consistent.forms (h : table.Consistent) (program : List (Form String)) :
    (table.forms program).2.Consistent := by
  induction program generalizing table with
  | nil => exact h
  | cons form rest ih => exact ih (h.internAll form.names)

theorem knows_forms (table : Interner) {program : List (Form String)} {form : Form String}
    (mem : form ∈ program) (hs : s ∈ form.names) : (table.forms program).2.Knows s := by
  induction program generalizing table with
  | nil => cases mem
  | cons first rest ih =>
      rcases List.mem_cons.1 mem with rfl | mem
      · exact (table.knows_internAll hs).extends (extends_forms _ rest)
      · exact ih _ mem

/-- Every string stands for the name that it has after all forms. -/
theorem forms_eq (table : Interner) (program : List (Form String)) :
    (table.forms program).1 = program.map (Form.map (table.forms program).2.nameOf) := by
  induction program generalizing table with
  | nil => rfl
  | cons form rest ih =>
      have first : form.map (table.internAll form.names).nameOf =
          form.map ((table.internAll form.names).forms rest).2.nameOf := by
        refine form.map_congr fun s mem => (nameOf_extends ?_ (extends_forms _ rest)).symm
        exact table.knows_internAll mem
      calc (table.forms (form :: rest)).1
        _ = form.map (table.internAll form.names).nameOf ::
            ((table.internAll form.names).forms rest).1 := rfl
        _ = (form :: rest).map (Form.map ((table.internAll form.names).forms rest).2.nameOf) := by
          rw [first, ih, List.map_cons]

end Interner

end MiniLisp
