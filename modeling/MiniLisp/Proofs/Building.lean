import MiniLisp.Factory
import MiniLisp.Proofs.Interner

/-!
What a construction makes. It interns the names of what it builds, in their order, and stands for the
syntax with the names that the interner has then (`Builds`); names that were used on the way do not change
while more is interned. So forms that are built by constructors, from the parts up, are the forms that are
written, interned one by one (`Interner.build_forms`).
-/

namespace MiniLisp

variable {α β : Type}

/-- The construction interns these names, and makes the syntax with the names that they have then. -/
structure Builds (m : Builder α) (names : List String) (built : (String → Name) → α) : Prop where
  congr : ∀ {f g : String → Name}, (∀ s ∈ names, f s = g s) → built f = built g
  run : ∀ table : Interner, m table = (built (table.internAll names).nameOf, table.internAll names)

namespace Interner

theorem internAll_append (table : Interner) (ss ts : List String) :
    table.internAll (ss ++ ts) = (table.internAll ss).internAll ts := List.foldl_append

theorem nameOf_intern (table : Interner) (s : String) :
    (table.intern s).2.nameOf s = (table.intern s).1 := by
  cases h : table.index.get? s with
  | some n => rw [intern_of_known h, nameOf_of_index h]
  | none =>
      refine nameOf_of_index ?_
      rw [intern_of_unknown h]
      exact Dictionary.get?_set_self _ s _

end Interner

namespace Builds

variable {m : Builder α} {names more : List String} {b : (String → Name) → α}

theorem pure (a : α) : Builds (pure a) [] fun _ => a where
  congr _ := rfl
  run _ := rfl

theorem name (s : String) : Builds (Builder.name s) [s] fun f => f s where
  congr h := h s List.mem_cons_self
  run table := Prod.ext (table.nameOf_intern s).symm rfl

theorem map (F : α → β) (h : Builds m names b) : Builds (F <$> m) names fun f => F (b f) where
  congr same := congrArg F (h.congr same)
  run table := by
    show ((F (m table).1, (m table).2) : β × Interner) = _
    rw [h.run]

/-- What is built first does not change while more is interned. -/
theorem seq {m : Builder (α → β)} {k : Builder α} {b : (String → Name) → α → β}
    {c : (String → Name) → α} (h : Builds m names b) (h' : Builds k more c) :
    Builds (m <*> k) (names ++ more) fun f => b f (c f) where
  congr same := by
    obtain ⟨first, second⟩ := List.forall_mem_append.1 same
    rw [h.congr first, h'.congr second]
  run table := by
    have kept : b ((table.internAll names).internAll more).nameOf =
        b (table.internAll names).nameOf := h.congr fun s hs =>
      Interner.nameOf_extends (table.knows_internAll hs) (Interner.extends_internAll _ more)
    show (((m table).1 (k (m table).2).1, (k (m table).2).2) : β × Interner) = _
    rw [h.run, h'.run, Interner.internAll_append, kept]

theorem all_name : ∀ ss : List String, Builds (Builder.all Builder.name ss) ss fun f => ss.map f
  | [] => .pure _
  | s :: rest => .seq (.map _ (.name s)) (all_name rest)

end Builds

theorem Target.names_update {ν : Type} (op : UpdateOp) (value : Expr ν) (target : Target ν) :
    (target.update op value).names = target.names ++ value.names := by
  cases target <;> rfl

theorem Target.map_update {ν μ : Type} (f : ν → μ) (op : UpdateOp) (value : Expr ν)
    (target : Target ν) : (target.update op value).map f = (target.map f).update op (value.map f) := by
  cases target <;> rfl

mutual

theorem Written.builds : ∀ e : Written, Builds e.build e.plain.names fun f => e.plain.map f
  | .literal _ | .bool _ => .pure _
  | .ident x => .map _ (.name x)
  | .aref x index => .seq (.map _ index.builds) (.name x)
  | .unary _ operand => .map _ operand.builds
  | .binary _ left right => .seq (.map _ left.builds) right.builds
  | .list _ operands => .map _ (Written.builds_all operands)
  | .varOp _ x value => .seq (.map _ value.builds) (.name x)
  | .lvalueOp op target value => by
      have parts := Builds.seq (.map (fun target value => target.update op value) target.builds)
        value.builds
      simp only [Written.plain, Target.names_update, Target.map_update]
      exact parts
  | .ifThen cond yes => .seq (.map _ cond.builds) yes.builds
  | .ifElse cond yes no => .seq (.seq (.map _ cond.builds) yes.builds) no.builds
  | .loopForever body => .map _ (Written.builds_all body)
  | .loopFor x first last body =>
      .seq (.seq (.seq (.map _ first.builds) last.builds) (Written.builds_all body)) (.name x)
  | .dotimes x count body => .seq (.seq (.map _ count.builds) (Written.builds_all body)) (.name x)
  | .call f args => .seq (.map _ (Written.builds_all args)) (.name f)
  | .ret value => .map _ value.builds

theorem WrittenPlace.builds : ∀ p : WrittenPlace,
    Builds p.build p.plain.names fun f => p.plain.map f
  | .ident x => .map _ (.name x)
  | .element x index => .seq (.map _ index.builds) (.name x)

theorem Written.builds_all : ∀ es : List Written,
    Builds (Written.buildAll es) (Expr.namesAll (Written.plainAll es))
      fun f => Expr.mapAll f (Written.plainAll es)
  | [] => .pure _
  | e :: rest => .seq (.map _ e.builds) (Written.builds_all rest)

end

theorem WrittenForm.builds : ∀ form : WrittenForm,
    Builds form.build form.plain.names fun f => form.plain.map f
  | .expr e => .map _ e.builds
  | .function g params body =>
      .seq (.seq (.map _ (Written.builds_all body)) (.name g)) (.all_name params)

/-- A form that is built by constructors is the written form with its names interned. -/
theorem Interner.build_form (table : Interner) (form : WrittenForm) :
    form.build table = table.form form.plain := form.builds.run table

/-- A program that is built by constructors, one form after another, is the written program with its names
interned form by form. -/
theorem Interner.build_forms (table : Interner) (program : List WrittenForm) :
    Builder.all WrittenForm.build program table = table.forms (program.map WrittenForm.plain) := by
  induction program generalizing table with
  | nil => rfl
  | cons form rest ih =>
      calc Builder.all WrittenForm.build (form :: rest) table
        _ = ((form.build table).1 :: (Builder.all WrittenForm.build rest (form.build table).2).1,
            (Builder.all WrittenForm.build rest (form.build table).2).2) := rfl
        _ = table.forms ((form :: rest).map WrittenForm.plain) := by
          rw [table.build_form form, ih]
          rfl

end MiniLisp
