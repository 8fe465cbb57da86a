import Mathlib.Data.Finset.Card
import MiniLisp.Proofs.Building

/-!
Reading built syntax back. A form stands for its strings with the names that they had when it was built.
The names keep their strings, so what was built is read back as it was written, however much is interned
later, and the interner has grown by the strings that are new (`Interner.built_read_back`).
-/

namespace MiniLisp

mutual

theorem Expr.map_id {ν : Type} : ∀ e : Expr ν, e.map id = e
  | .literal _ | .var _ => rfl
  | .element x index => congrArg (Expr.element x) index.map_id
  | .unary op operand => congrArg (Expr.unary op) operand.map_id
  | .binary op left right => congrArg₂ (Expr.binary op) left.map_id right.map_id
  | .variadic op operands => congrArg (Expr.variadic op) (Expr.mapAll_id operands)
  | .bind op x value => congrArg (Expr.bind op x) value.map_id
  | .update op x value => congrArg (Expr.update op x) value.map_id
  | .updateElement op x index value => congrArg₂ (Expr.updateElement op x) index.map_id value.map_id
  | .ifThen cond yes => congrArg₂ Expr.ifThen cond.map_id yes.map_id
  | .ifElse cond yes no => by rw [Expr.map, cond.map_id, yes.map_id, no.map_id]
  | .loop body => congrArg Expr.loop (Expr.mapAll_id body)
  | .loopFor x first last body => by
      rw [Expr.map, first.map_id, last.map_id, Expr.mapAll_id body, id]
  | .dotimes x count body => congrArg₂ (Expr.dotimes x) count.map_id (Expr.mapAll_id body)
  | .call f args => congrArg (Expr.call f) (Expr.mapAll_id args)
  | .ret value => congrArg Expr.ret value.map_id

theorem Expr.mapAll_id {ν : Type} : ∀ es : List (Expr ν), Expr.mapAll id es = es
  | [] => rfl
  | e :: rest => congrArg₂ List.cons e.map_id (Expr.mapAll_id rest)

end

theorem Form.map_id {ν : Type} (form : Form ν) : form.map id = form := by
  cases form with
  | expr e => exact congrArg Form.expr e.map_id
  | function fn =>
      rw [Form.map, FunctionDef.map, List.map_id, Expr.mapAll_id]
      rfl

theorem Form.map_map {ν μ κ : Type} (f : ν → μ) (g : μ → κ) (form : Form ν) :
    (form.map f).map g = form.map (g ∘ f) := by
  cases form with
  | expr e => exact congrArg Form.expr (e.map_map f g)
  | function fn =>
      simp only [Form.map, FunctionDef.map, List.map_map, Expr.mapAll_mapAll]
      rfl

namespace Interner

variable {table : Interner} {s : String}

/-- Syntax whose names are known is read back. -/
theorem Consistent.read_back (h : table.Consistent) {form : Form String}
    (known : ∀ s ∈ form.names, table.Knows s) :
    (form.map table.nameOf).map table.lookup = form := by
  have same : ∀ s ∈ form.names, (table.lookup ∘ table.nameOf) s = id s := fun s mem =>
    h.lookup_of_index (known s mem)
  rw [form.map_map, form.map_congr same, form.map_id]

/-- Syntax that was built with names for its strings is read back also when more is interned. -/
theorem Consistent.read_back_later (h : table.Consistent) {program : List (Form String)}
    (known : ∀ form ∈ program, ∀ s ∈ form.names, table.Knows s) (more : List String) :
    (program.map (Form.map table.nameOf)).map (Form.map (table.internAll more).lookup) = program := by
  have grown := table.extends_internAll more
  rw [List.map_map]
  refine (List.map_congr_left fun form mem => ?_).trans program.map_id
  have kept : form.map table.nameOf = form.map (table.internAll more).nameOf :=
    form.map_congr fun s hs => (nameOf_extends (known form mem s hs) grown).symm
  have back := (h.internAll more).read_back fun s hs => (known form mem s hs).extends grown
  rw [Function.comp_apply, kept, back, id]

theorem Consistent.forms_read_back (h : table.Consistent) (program : List (Form String))
    (more : List String) :
    (table.forms program).1.map (Form.map ((table.forms program).2.internAll more).lookup) = program := by
  rw [forms_eq]
  exact (h.forms program).read_back_later (fun form mem s hs => table.knows_forms mem hs) more

/-! ### Size -/

theorem contains_intern (table : Interner) (t s : String) :
    (table.intern t).2.index.contains s ↔ table.index.contains s ∨ s = t := by
  unfold Dictionary.contains
  cases h : table.index.get? t with
  | some n =>
      rw [intern_of_known h]
      constructor
      · exact .inl
      · rintro (known | rfl)
        · exact known
        · rw [h]
          rfl
  | none =>
      rw [intern_of_unknown h, Dictionary.get?_set]
      by_cases same : t = s
      · simp [same]
      · simp [same, Ne.symm same]

theorem contains_internAll (table : Interner) (ss : List String) (s : String) :
    (table.internAll ss).index.contains s ↔ table.index.contains s ∨ s ∈ ss := by
  induction ss generalizing table with
  | nil => simp [internAll]
  | cons first rest ih =>
      show ((table.intern first).2.internAll rest).index.contains s ↔ _
      rw [ih, contains_intern, List.mem_cons, or_assoc]

/-- A new interner knows the empty string and what it has interned. -/
theorem contains_internAll_new (ss : List String) (s : String) :
    (new.internAll ss).index.contains s ↔ s = "" ∨ s ∈ ss := by
  rw [contains_internAll]
  refine or_congr_left ?_
  rw [Dictionary.contains, new, Dictionary.get?_set]
  by_cases same : "" = s
  · simp [same]
  · simp [same, Ne.symm same]

/-- The vector holds every known string once. -/
theorem Consistent.nodup (h : table.Consistent) : table.strings.toList.Nodup := by
  refine List.nodup_iff_getElem?_ne_getElem?.2 fun i j lt bound same => ?_
  rw [Array.getElem?_toList, Array.getElem?_toList] at same
  obtain ⟨s, stored⟩ : ∃ s, table.strings[j]? = some s :=
    ⟨_, Array.getElem?_eq_getElem (by simpa using bound)⟩
  have first := (h s ⟨i⟩).2 (same.trans stored)
  have second := (h s ⟨j⟩).2 stored
  have equal := Option.some.inj (first.symm.trans second)
  cases equal
  exact lt_irrefl _ lt

theorem Consistent.mem_strings (h : table.Consistent) :
    s ∈ table.strings.toList ↔ table.index.contains s := by
  rw [Array.mem_toList_iff, Array.mem_iff_getElem?, Dictionary.contains, Option.isSome_iff_exists]
  constructor
  · rintro ⟨i, stored⟩
    exact ⟨⟨i⟩, (h s ⟨i⟩).2 stored⟩
  · rintro ⟨n, known⟩
    exact ⟨n.raw, (h s n).1 known⟩

/-- A new interner grows by the strings that are interned, the empty one apart. -/
theorem size_internAll_new (ss : List String) :
    (new.internAll ss).size = 1 + (ss.toFinset.erase "").card := by
  have consistent := consistent_new.internAll ss
  have strings : (new.internAll ss).strings.toList.toFinset = insert "" ss.toFinset := by
    ext s
    rw [List.mem_toFinset, consistent.mem_strings, contains_internAll_new, Finset.mem_insert,
      List.mem_toFinset]
  calc (new.internAll ss).size
    _ = (new.internAll ss).strings.toList.toFinset.card := by
      rw [List.toFinset_card_of_nodup consistent.nodup]
      rfl
    _ = 1 + (ss.toFinset.erase "").card := by
      rw [strings, ← Finset.card_erase_add_one (Finset.mem_insert_self "" ss.toFinset),
        Finset.erase_insert_eq_erase, Nat.add_comm]

/-- The forms that are built one after another have interned their names and nothing else. -/
theorem forms_snd (table : Interner) (program : List (Form String)) :
    (table.forms program).2 = table.internAll (program.flatMap Form.names) := by
  induction program generalizing table with
  | nil => rfl
  | cons form rest ih =>
      show ((table.internAll form.names).forms rest).2 = _
      rw [ih, List.flatMap_cons, internAll_append]

/-- However a program is built, by constructors one after another or form by form, each form is read
back as it was written, with whatever the interner has interned later; and a new interner holds the
empty string and the names in the program in the end, each once. -/
theorem built_read_back (program : List WrittenForm) :
    let written := program.map WrittenForm.plain
    let names := (written.flatMap Form.names).toFinset
    (∀ before more,
      let built := Builder.all WrittenForm.build program (new.internAll before)
      let direct := (new.internAll before).forms written
      built.1.map (Form.map (built.2.internAll more).lookup) = written ∧
      direct.1.map (Form.map (direct.2.internAll more).lookup) = written) ∧
    (Builder.all WrittenForm.build program new).2.size = 1 + (names.erase "").card ∧
    (new.forms written).2.size = 1 + (names.erase "").card := by
  intro written names
  have size : (new.forms written).2.size = 1 + (names.erase "").card := by
    rw [forms_snd]
    exact size_internAll_new _
  refine ⟨fun before more => ?_, ?_, size⟩
  · have read := (consistent_new.internAll before).forms_read_back written more
    rw [build_forms]
    exact ⟨read, read⟩
  · rw [build_forms]
    exact size

end Interner

end MiniLisp
