import MiniLisp.Proofs.Chain
import MiniLisp.Proofs.Store
import MiniLisp.Session

/-!
The scope that a name means. Seen from a scope, a name means its binding in the first scope of the path
that has one, its definer. Reading a name shows what the definer binds (`Store.lookup_view`), replacing
its value rebinds it in the definer (`Store.commit_replace`), and declaring it rebinds it in the scope
itself (`Store.commit_define`). So all ways to follow a name through a chain end at the same scope, or
all of them fail (`Session.names_resolve`).
-/

namespace MiniLisp

variable {ν : Type} [DecidableEq ν]

namespace Store

variable (store : Store ν) {i t D : Nat} {x y : ν}

/-- The first scope on the path of a scope that binds the name. -/
def definer? (i : Nat) (x : ν) : Option Nat :=
  (store.path i).find? fun t => (store.bindings t).contains x

/-- Binds a name in a scope, or replaces its value there. -/
def rebind (t : Nat) (x : ν) (v : Value) : Store ν :=
  store.setBindings t ((store.bindings t).set x v)

theorem definer?_of_contains (h : (store.bindings i).contains x = true) :
    store.definer? i x = some i := by
  unfold definer?
  cases hparent : store.parent? i with
  | none =>
      rw [store.path_of_root hparent]
      exact List.find?_cons_of_pos h
  | some p =>
      rw [store.path_of_parent hparent]
      exact List.find?_cons_of_pos h

theorem definer?_of_root (hroot : store.parent? i = none) (h : ¬(store.bindings i).contains x = true) :
    store.definer? i x = none := by
  rw [definer?, store.path_of_root hroot]
  exact List.find?_cons_of_neg h

theorem definer?_of_parent {p : Nat} (hparent : store.parent? i = some p)
    (h : ¬(store.bindings i).contains x = true) : store.definer? i x = store.definer? p x := by
  rw [definer?, store.path_of_parent hparent]
  exact List.find?_cons_of_neg h

/-- The definer of a name binds it. -/
theorem get?_of_definer? (h : store.definer? i x = some D) :
    ∃ v, (store.bindings D).get? x = some v :=
  have bound : (store.bindings D).contains x = true :=
    List.find?_some (p := fun t => (store.bindings t).contains x) h
  Option.isSome_iff_exists.1 bound

/-- A scope that binds a name exists. -/
theorem lt_size_of_get? {v : Value} (h : (store.bindings t).get? x = some v) : t < store.size := by
  refine Nat.lt_of_not_le fun free => ?_
  have unknown : store.scopes[t]? = none := Array.getElem?_eq_none free
  rw [bindings, unknown] at h
  cases h

/-- A name means what its definer binds. -/
theorem lookup_view (i : Nat) (x : ν) :
    (store.view i).lookup x = (store.definer? i x).bind fun D => (store.bindings D).get? x := by
  induction i using store.parent_induction with
  | root i hroot =>
      rw [store.view_of_root hroot, Chain.lookup]
      by_cases h : (store.bindings i).contains x = true
      · rw [store.definer?_of_contains h, Option.bind_some]
      · rw [store.definer?_of_root hroot h, Option.bind_none]
        exact Option.not_isSome_iff_eq_none.1 h
  | child i p hparent ih =>
      rw [store.view_of_parent hparent, Chain.lookup]
      cases found : (store.bindings i).get? x with
      | some v =>
          have bound : (store.bindings i).contains x = true := by rw [Dictionary.contains, found]; rfl
          rw [store.definer?_of_contains bound, Option.bind_some, found]
      | none =>
          have unbound : ¬(store.bindings i).contains x = true := by simp [Dictionary.contains, found]
          rw [store.definer?_of_parent hparent unbound]
          exact ih

theorem lookup_view_of_definer? {v : Value} (h : store.definer? i x = some D)
    (bound : (store.bindings D).get? x = some v) : (store.view i).lookup x = some v := by
  rw [store.lookup_view, h, Option.bind_some, bound]

theorem lookup_view_of_undefined (h : store.definer? i x = none) : (store.view i).lookup x = none := by
  rw [store.lookup_view, h, Option.bind_none]

/-! ### Rebinding -/

@[simp] theorem size_rebind (t : Nat) (x : ν) (v : Value) : (store.rebind t x v).size = store.size :=
  store.size_setBindings t _

@[simp] theorem parent?_rebind (t i : Nat) (x : ν) (v : Value) :
    (store.rebind t x v).parent? i = store.parent? i :=
  store.parent?_setBindings t i _

/-- Rebinding changes one binding of one scope. -/
theorem get?_rebind (exists_scope : D < store.size) (x : ν) (v : Value) (t : Nat) (y : ν) :
    ((store.rebind D x v).bindings t).get? y =
      if t = D ∧ y = x then some v else (store.bindings t).get? y := by
  by_cases scope : t = D
  · subst scope
    rw [rebind, store.bindings_setBindings_self exists_scope, Dictionary.get?_set]
    simp only [true_and, eq_comm]
  · rw [rebind, store.bindings_setBindings_of_ne (Ne.symm scope), if_neg fun both => scope both.1]

theorem rebind_of_get? {v : Value} (h : (store.bindings D).get? x = some v) :
    store.rebind D x v = store := by
  rw [rebind, Dictionary.set_of_get? _ h, setBindings_bindings]

/-- Of two values for one name in one scope, the later one stays. -/
theorem rebind_rebind (t : Nat) (x : ν) (v w : Value) :
    (store.rebind t x v).rebind t x w = store.rebind t x w := by
  by_cases exists_scope : t < store.size
  · rw [rebind, rebind, store.bindings_setBindings_self exists_scope, setBindings_setBindings,
      Dictionary.set_set, rebind]
  · have free : store.size ≤ t := Nat.not_lt.1 exists_scope
    rw [rebind, rebind, store.setBindings_of_ge free, store.setBindings_of_ge free, rebind,
      store.setBindings_of_ge free]

/-- If the same names are bound along the path, each has the same definer. -/
theorem definer?_congr {other : Store ν} (parents : ∀ j, other.parent? j = store.parent? j)
    (bound : ∀ t, (other.bindings t).contains x = (store.bindings t).contains x) (i : Nat) :
    other.definer? i x = store.definer? i x := by
  rw [definer?, definer?, store.path_congr parents]
  simp only [bound]

theorem contains_rebind (exists_scope : D < store.size) (x : ν) (v : Value) (t : Nat) (y : ν) :
    ((store.rebind D x v).bindings t).contains y =
      if t = D ∧ y = x then true else (store.bindings t).contains y := by
  rw [Dictionary.contains, store.get?_rebind exists_scope]
  split <;> rfl

/-- Replacing a value does not change what names mean. -/
theorem definer?_rebind_of_get? {old : Value} (h : (store.bindings D).get? x = some old) (v : Value)
    (i : Nat) (y : ν) : (store.rebind D x v).definer? i y = store.definer? i y := by
  refine store.definer?_congr (fun j => store.parent?_rebind D j x v) (fun t => ?_) i
  rw [store.contains_rebind (store.lt_size_of_get? h)]
  split
  · next both =>
      obtain ⟨rfl, rfl⟩ := both
      rw [Dictionary.contains, h]
      rfl
  · rfl

/-- Rebinding a name does not change what other names mean. -/
theorem definer?_rebind_of_ne (exists_scope : D < store.size) (ne : y ≠ x) (v : Value) (i : Nat) :
    (store.rebind D x v).definer? i y = store.definer? i y := by
  refine store.definer?_congr (fun j => store.parent?_rebind D j x v) (fun t => ?_) i
  rw [store.contains_rebind exists_scope, if_neg fun both => ne both.2]

/-- Replacing a value shows wherever the name has this definer, and nowhere else. -/
theorem lookup_rebind_of_get? {old : Value} (h : (store.bindings D).get? x = some old) (v : Value)
    (i : Nat) (y : ν) :
    ((store.rebind D x v).view i).lookup y =
      if store.definer? i y = some D ∧ y = x then some v else (store.view i).lookup y := by
  rw [lookup_view, store.definer?_rebind_of_get? h, store.lookup_view]
  cases found : store.definer? i y with
  | none => simp
  | some t =>
      rw [Option.bind_some, Option.bind_some, store.get?_rebind (store.lt_size_of_get? h)]
      simp only [Option.some.injEq]

theorem lookup_rebind_of_ne (exists_scope : D < store.size) (ne : y ≠ x) (v : Value) (i : Nat) :
    ((store.rebind D x v).view i).lookup y = (store.view i).lookup y := by
  rw [lookup_view, store.definer?_rebind_of_ne exists_scope ne, store.lookup_view]
  refine Option.bind_congr fun t _ => ?_
  rw [store.get?_rebind exists_scope, if_neg fun both => ne both.2]

/-! ### Putting changed chains back -/

omit [DecidableEq ν] in
/-- The other scopes of a path do not see what is bound in its first scope. -/
theorem commit_setBindings_parent {p : Nat} (hparent : store.parent? i = some p) (b : Bindings ν) :
    (store.setBindings i b).commit p (store.view p) = store.setBindings i b := by
  have same : (store.setBindings i b).view p = store.view p := by
    refine view_congr (fun j => store.parent?_setBindings i j b) fun t mem => ?_
    refine store.bindings_setBindings_of_ne (fun e => ?_) b
    exact store.not_mem_path_of_parent hparent (e ▸ mem)
  rw [← same, commit_view]

/-- Replacing the value of a name rebinds the name in its definer. -/
theorem commit_replace (i : Nat) (x : ν) (v : Value) :
    store.commit i ((store.view i).replace x v) =
      (store.definer? i x).elim store fun D => store.rebind D x v := by
  induction i using store.parent_induction with
  | root i hroot =>
      rw [store.view_of_root hroot, Chain.replace]
      split
      · next bound =>
          rw [store.definer?_of_contains bound]
          rfl
      · next unbound =>
          rw [store.definer?_of_root hroot unbound]
          exact store.setBindings_bindings i
  | child i p hparent ih =>
      rw [store.view_of_parent hparent, Chain.replace]
      split
      · next bound =>
          -- The rest of the path is put back as it was.
          rw [store.definer?_of_contains bound, store.commit_child_of_parent hparent,
            store.commit_setBindings_parent hparent]
          rfl
      · next unbound =>
          rw [store.definer?_of_parent hparent unbound, store.commit_child_of_parent hparent,
            store.setBindings_bindings, ih]

theorem commit_replace_of_definer? (h : store.definer? i x = some D) (v : Value) :
    store.commit i ((store.view i).replace x v) = store.rebind D x v := by
  rw [store.commit_replace, h]
  rfl

/-- Declaring a name rebinds it in the scope itself. -/
theorem commit_define (i : Nat) (x : ν) (v : Value) :
    store.commit i ((store.view i).define x v) = store.rebind i x v := by
  cases hparent : store.parent? i with
  | none => rw [store.view_of_root hparent, Chain.define, commit, rebind]
  | some p =>
      rw [store.view_of_parent hparent, Chain.define, store.commit_child_of_parent hparent,
        store.commit_setBindings_parent hparent, rebind]

/-- The name got a value in one scope. All other bindings of all scopes are as before, and so is what is
read, but for the name in those scopes from which that scope is its definer. -/
structure Rebinds (D : Nat) (x : ν) (v : Value) (after : Store ν) : Prop where
  size : after.size = store.size
  parents : ∀ i, after.parent? i = store.parent? i
  bound : (after.bindings D).get? x = some v
  others : ∀ t y, ¬(t = D ∧ y = x) → (after.bindings t).get? y = (store.bindings t).get? y
  lookups : ∀ i y, (after.view i).lookup y =
    if store.definer? i y = some D ∧ y = x then some v else (store.view i).lookup y

theorem rebinds_rebind {old : Value} (h : (store.bindings D).get? x = some old) (v : Value) :
    store.Rebinds D x v (store.rebind D x v) where
  size := store.size_rebind D x v
  parents i := store.parent?_rebind D i x v
  bound := by rw [store.get?_rebind (store.lt_size_of_get? h), if_pos ⟨rfl, rfl⟩]
  others t y other := by rw [store.get?_rebind (store.lt_size_of_get? h), if_neg other]
  lookups := store.lookup_rebind_of_get? h v

end Store

namespace Session

/-- Every way to follow the name from the scope ends at one scope: reading gives what this scope binds,
and writing rebinds the name there. -/
structure Resolves (session : Session ν) (i : Nat) (x : ν) (D : Nat) (stored : Value) : Prop where
  bound : (session.store.bindings D).get? x = some stored
  contains : (session.store.view i).contains x = true
  lookup : session.interp.lookup i x = some stored
  inspect : ∀ {β : Type} (look : Value → β),
    (session.store.view i).inspect x look = some (look stored)
  modify : ∀ {β : Type} (change : Value → β × Value), ∃ c,
    (session.store.view i).modify? x change = some ((change stored).1, c) ∧
    session.store.Rebinds D x (change stored).2 (session.store.commit i c)
  assign : ∀ v, ∃ c, (session.store.view i).assign? x v = some c ∧
    session.store.Rebinds D x v (session.store.commit i c)

/-- Every way to follow the name from the scope fails, and a command that fails changes nothing. -/
structure Lacks (session : Session ν) (i : Nat) (x : ν) : Prop where
  contains : (session.store.view i).contains x = false
  lookup : session.interp.lookup i x = none
  inspect : ∀ {β : Type} (look : Value → β), (session.store.view i).inspect x look = none
  modify : ∀ {β : Type} (change : Value → β × Value),
    (session.store.view i).modify? x change = none
  assign : ∀ v, (session.store.view i).assign? x v = none
  unchanged : ∀ label fuel v, (session.step label fuel (.assign i x v)).2 = session ∧
    (session.step label fuel (.exchange i x v)).2 = session

variable {session : Session ν} {i D : Nat} {x : ν} {stored : Value}

theorem resolves_of_definer? (h : session.store.definer? i x = some D)
    (bound : (session.store.bindings D).get? x = some stored) : session.Resolves i x D stored := by
  have found := session.store.lookup_view_of_definer? h bound
  have rebinds := session.store.rebinds_rebind bound
  have replaced := session.store.commit_replace_of_definer? h
  refine ⟨bound, ?_, found, fun look => ?_, fun change => ?_, fun v => ?_⟩
  · rw [Chain.contains_eq, found]
    rfl
  · rw [Chain.inspect_eq, found]
    rfl
  · rw [Chain.modify?_eq, found]
    exact ⟨_, rfl, replaced _ ▸ rebinds _⟩
  · rw [Chain.assign?_eq, found]
    exact ⟨_, rfl, replaced v ▸ rebinds v⟩

theorem lacks_of_undefined (h : session.store.definer? i x = none) : session.Lacks i x := by
  have missing := session.store.lookup_view_of_undefined h
  have assign (v : Value) : (session.store.view i).assign? x v = none := by
    rw [Chain.assign?_eq, missing]
    rfl
  have modify {β : Type} (change : Value → β × Value) :
      (session.store.view i).modify? x change = none := by
    rw [Chain.modify?_eq, missing]
    rfl
  refine ⟨?_, missing, fun look => ?_, modify, assign, fun label fuel v => ⟨?_, ?_⟩⟩
  · rw [Chain.contains_eq, missing]
    rfl
  · rw [Chain.inspect_eq, missing]
    rfl
  · rw [step]
    split
    · rw [perform, assign]
    · rfl
  · rw [step]
    split
    · rw [perform, modify]
    · rfl

/-- From any scope, all ways to follow a name meet at the first scope of the path that binds it: each of
them succeeds if there is such a scope, reads what this scope binds and writes nothing but that binding;
and without such a scope each of them fails and changes nothing. -/
theorem names_resolve (session : Session ν) (i : Nat) (x : ν) :
    (∀ D, session.store.definer? i x = some D → ∃ stored, session.Resolves i x D stored) ∧
    (session.store.definer? i x = none → session.Lacks i x) := by
  refine ⟨fun D h => ?_, lacks_of_undefined⟩
  obtain ⟨stored, bound⟩ := session.store.get?_of_definer? h
  exact ⟨stored, resolves_of_definer? h bound⟩

/-- A root that binds the name 0, a scope below it that binds the name again, an empty scope below that
one, and an empty scope 3 beside them. -/
def shadowed : Session Nat :=
  [.child 0, .child 1, .child 0, .define 0 0 (.int 1), .define 1 0 (.int 2)].foldl
    (fun session command => (session.step toString 0 command).2) (new (Interpreter.new none .silent))

/-- From the innermost scope the name means the inner binding, and from the scope beside the outer one;
assigning it from the former does not show in the latter. The name 5 is bound nowhere. -/
theorem names_resolve_shadowed :
    shadowed.store.definer? 2 0 = some 1 ∧ shadowed.store.definer? 3 0 = some 0 ∧
    (∃ c, (shadowed.store.view 2).assign? 0 (.int 7) = some c ∧
      ((shadowed.store.commit 2 c).view 2).lookup 0 = some (.int 7) ∧
      ((shadowed.store.commit 2 c).view 3).lookup 0 = some (.int 1)) ∧
    shadowed.store.definer? 2 5 = none ∧ shadowed.Lacks 2 5 := by
  have inner : shadowed.store.definer? 2 0 = some 1 := by decide +kernel
  have beside : shadowed.store.definer? 3 0 = some 0 := by decide +kernel
  have unbound : shadowed.store.definer? 2 5 = none := by decide +kernel
  obtain ⟨stored, resolves⟩ := (names_resolve shadowed 2 0).1 1 inner
  obtain ⟨c, assigned, rebinds⟩ := resolves.assign (.int 7)
  refine ⟨inner, beside, ⟨c, assigned, ?_, ?_⟩, unbound, (names_resolve shadowed 2 5).2 unbound⟩
  · rw [rebinds.lookups, if_pos ⟨inner, rfl⟩]
  · rw [rebinds.lookups, if_neg fun both => absurd (beside.symm.trans both.1) (by decide)]
    decide +kernel

end Session

end MiniLisp
