import MiniLisp.Scope.Store

/-!
Looking at a scope and putting a chain back. What is put back is what the scope then shows
(`view_commit`), putting back what it shows changes nothing (`commit_view`), the last of several chains that
are put back stays (`commit_commit`), scopes off its path keep their bindings (`bindings_commit_of_not_mem`),
and no scope changes its place (`parent?_commit`).
-/

namespace MiniLisp

/-- The bindings of the current scope. -/
def Chain.own {ν : Type} : Chain ν → Bindings ν
  | root b => b
  | child b _ => b

namespace Store

variable {ν : Type} (store : Store ν)

theorem view_of_root {i : Nat} (h : store.parent? i = none) :
    store.view i = .root (store.bindings i) := by
  rw [view]
  split
  · simp_all
  · rfl

theorem view_of_parent {i p : Nat} (h : store.parent? i = some p) :
    store.view i = .child (store.bindings i) (store.view p) := by
  rw [view]
  split
  · simp_all
  · simp_all

theorem own_view (i : Nat) : (store.view i).own = store.bindings i := by
  cases h : store.parent? i with
  | none => rw [store.view_of_root h, Chain.own]
  | some p => rw [store.view_of_parent h, Chain.own]

theorem path_of_root {i : Nat} (h : store.parent? i = none) : store.path i = [i] := by
  rw [path]
  split
  · simp_all
  · rfl

theorem path_of_parent {i p : Nat} (h : store.parent? i = some p) :
    store.path i = i :: store.path p := by
  rw [path]
  split
  · simp_all
  · simp_all

theorem rootOf_of_root {i : Nat} (h : store.parent? i = none) : store.rootOf i = i := by
  rw [rootOf]
  split
  · simp_all
  · rfl

theorem rootOf_of_parent {i p : Nat} (h : store.parent? i = some p) :
    store.rootOf i = store.rootOf p := by
  rw [rootOf]
  split
  · simp_all
  · simp_all

/-- What holds of scopes without a parent, and of a scope if it holds of the parent, holds of all. -/
theorem parent_induction {motive : Nat → Prop}
    (root : ∀ i, store.parent? i = none → motive i)
    (child : ∀ i p, store.parent? i = some p → motive p → motive i) (i : Nat) : motive i := by
  induction i using Nat.strongRecOn with
  | ind i ih =>
      cases h : store.parent? i with
      | none => exact root i h
      | some p => exact child i p h (ih p (store.parent?_lt h))

theorem le_of_mem_path {i t : Nat} (h : t ∈ store.path i) : t ≤ i := by
  induction i using store.parent_induction with
  | root i hroot =>
      rw [store.path_of_root hroot, List.mem_singleton] at h
      exact Nat.le_of_eq h
  | child i p hparent ih =>
      rw [store.path_of_parent hparent, List.mem_cons] at h
      rcases h with rfl | h
      · exact Nat.le_refl t
      · exact Nat.le_of_lt (Nat.lt_of_le_of_lt (ih h) (store.parent?_lt hparent))

theorem not_mem_path_of_parent {i p : Nat} (h : store.parent? i = some p) : i ∉ store.path p := by
  intro mem
  have := store.le_of_mem_path mem
  have := store.parent?_lt h
  omega

theorem self_mem_path (i : Nat) : i ∈ store.path i := by
  cases h : store.parent? i with
  | none => simp [store.path_of_root h]
  | some p => simp [store.path_of_parent h]

theorem parent?_rootOf (i : Nat) : store.parent? (store.rootOf i) = none := by
  induction i using store.parent_induction with
  | root i hroot => rwa [store.rootOf_of_root hroot]
  | child i p hparent ih => rwa [store.rootOf_of_parent hparent]

theorem rootOf_mem_path (i : Nat) : store.rootOf i ∈ store.path i := by
  induction i using store.parent_induction with
  | root i hroot => simp [store.rootOf_of_root hroot, store.path_of_root hroot]
  | child i p hparent ih =>
      rw [store.rootOf_of_parent hparent, store.path_of_parent hparent]
      exact List.mem_cons_of_mem i ih

/-! Adding a scope. -/

theorem parent?_of_lt {i : Nat} (h : i < store.scopes.size) :
    store.parent? i = store.scopes[i].parent := by simp [parent?, h]

theorem lt_size_of_parent? {i p : Nat} (h : store.parent? i = some p) : i < store.size := by
  obtain ⟨scope, found, -⟩ := Option.bind_eq_some_iff.1 h
  exact (Array.getElem?_eq_some_iff.1 found).1

theorem size_push (scope : Scope ν) (h : ∀ p, scope.parent = some p → p < store.size) :
    (store.push scope h).size = store.size + 1 := Array.size_push scope

theorem parent?_push (scope : Scope ν) (h : ∀ p, scope.parent = some p → p < store.size) (i : Nat) :
    (store.push scope h).parent? i = if i = store.size then scope.parent else store.parent? i := by
  unfold push parent? size
  rw [Array.getElem?_push]
  split <;> rfl

/-! Changing the bindings of one scope. -/

@[simp] theorem size_setBindings (i : Nat) (b : Bindings ν) :
    (store.setBindings i b).size = store.size := by
  unfold setBindings size
  split <;> simp

@[simp] theorem parent?_setBindings (i j : Nat) (b : Bindings ν) :
    (store.setBindings i b).parent? j = store.parent? j := by
  unfold setBindings parent?
  split
  · next h =>
      rw [Array.getElem?_set]
      split
      · next same =>
          subst same
          simp [h]
      · rfl
  · rfl

theorem setBindings_of_ge {i : Nat} (h : store.size ≤ i) (b : Bindings ν) :
    store.setBindings i b = store := by
  have h' : ¬i < store.scopes.size := Nat.not_lt.2 h
  simp [setBindings, h']

theorem bindings_setBindings_self {i : Nat} (h : i < store.size) (b : Bindings ν) :
    (store.setBindings i b).bindings i = b := by
  have h' : i < store.scopes.size := h
  simp [setBindings, bindings, h']

theorem bindings_setBindings_of_ne {i j : Nat} (h : i ≠ j) (b : Bindings ν) :
    (store.setBindings i b).bindings j = store.bindings j := by
  by_cases hi : i < store.scopes.size
  · simp [setBindings, bindings, hi, Array.getElem?_set_ne hi h]
  · simp [setBindings, hi]

theorem setBindings_bindings (i : Nat) : store.setBindings i (store.bindings i) = store := by
  by_cases h : i < store.scopes.size
  · have same : ({ store.scopes[i] with bindings := store.bindings i } : Scope ν) = store.scopes[i] := by
      simp [bindings, h]
    unfold setBindings
    rw [dif_pos h]
    congr 1
    rw [same, Array.set_getElem_self]
  · exact store.setBindings_of_ge (Nat.not_lt.1 h) _

theorem setBindings_setBindings (i : Nat) (b b' : Bindings ν) :
    (store.setBindings i b).setBindings i b' = store.setBindings i b' := by
  by_cases h : i < store.scopes.size
  · simp [setBindings, h]
  · have h : store.size ≤ i := Nat.not_lt.1 h
    rw [store.setBindings_of_ge h]

/-- Scopes with the same parents and bindings are the same. -/
theorem ext_scopes {store other : Store ν} (size : other.size = store.size)
    (parents : ∀ i, other.parent? i = store.parent? i)
    (bindings : ∀ i, other.bindings i = store.bindings i) : other = store := by
  obtain ⟨scopes, ordered⟩ := store
  obtain ⟨scopes', ordered'⟩ := other
  congr 1
  refine Array.ext size fun i h' h => ?_
  have parent := parents i
  have bound := bindings i
  simp only [parent?, Store.bindings, Array.getElem?_eq_getElem h, Array.getElem?_eq_getElem h',
    Option.bind_some] at parent bound
  exact congr (congrArg Scope.mk bound) parent

/-! Two stores with the same parents. -/

section Same

variable {store} {other : Store ν} (same : ∀ j, other.parent? j = store.parent? j)

include same

theorem path_congr (i : Nat) : other.path i = store.path i := by
  induction i using store.parent_induction with
  | root i h => rw [store.path_of_root h, other.path_of_root ((same i).trans h)]
  | child i p h ih => rw [store.path_of_parent h, other.path_of_parent ((same i).trans h), ih]

theorem rootOf_congr (i : Nat) : other.rootOf i = store.rootOf i := by
  induction i using store.parent_induction with
  | root i h => rw [store.rootOf_of_root h, other.rootOf_of_root ((same i).trans h)]
  | child i p h ih => rw [store.rootOf_of_parent h, other.rootOf_of_parent ((same i).trans h), ih]

theorem view_congr {i : Nat} (h : ∀ t ∈ store.path i, other.bindings t = store.bindings t) :
    other.view i = store.view i := by
  induction i using store.parent_induction with
  | root i hroot =>
      rw [store.view_of_root hroot, other.view_of_root ((same i).trans hroot),
        h i (store.self_mem_path i)]
  | child i p hparent ih =>
      rw [store.view_of_parent hparent, other.view_of_parent ((same i).trans hparent),
        h i (store.self_mem_path i), ih fun t mem => h t ?_]
      rw [store.path_of_parent hparent]
      exact List.mem_cons_of_mem i mem

theorem bindings_of_view {i : Nat} (h : other.view i = store.view i) :
    ∀ t ∈ store.path i, other.bindings t = store.bindings t := by
  induction i using store.parent_induction with
  | root i hroot =>
      rw [store.view_of_root hroot, other.view_of_root ((same i).trans hroot)] at h
      intro t mem
      rw [store.path_of_root hroot, List.mem_singleton] at mem
      subst mem
      exact Chain.root.inj h
  | child i p hparent ih =>
      rw [store.view_of_parent hparent, other.view_of_parent ((same i).trans hparent)] at h
      obtain ⟨own, outer⟩ := Chain.child.inj h
      intro t mem
      rw [store.path_of_parent hparent, List.mem_cons] at mem
      rcases mem with rfl | mem
      · exact own
      · exact ih outer t mem

end Same

/-! Putting a chain back. -/

theorem commit_child_of_parent {i p : Nat} (h : store.parent? i = some p) (b : Bindings ν)
    (outer : Chain ν) :
    store.commit i (.child b outer) = (store.setBindings i b).commit p outer := by
  rw [commit, h]

@[simp] theorem size_commit (i : Nat) (c : Chain ν) : (store.commit i c).size = store.size := by
  induction c generalizing store i with
  | root b => exact store.size_setBindings i b
  | child b outer ih =>
      unfold commit
      split
      · rw [ih, size_setBindings]
      · exact store.size_setBindings i b

@[simp] theorem parent?_commit (i j : Nat) (c : Chain ν) :
    (store.commit i c).parent? j = store.parent? j := by
  induction c generalizing store i with
  | root b => exact store.parent?_setBindings i j b
  | child b outer ih =>
      unfold commit
      split
      · rw [ih, parent?_setBindings]
      · exact store.parent?_setBindings i j b

theorem bindings_commit_of_not_mem {i t : Nat} (h : t ∉ store.path i) (c : Chain ν) :
    (store.commit i c).bindings t = store.bindings t := by
  have ne : i ≠ t := fun e => h (e ▸ store.self_mem_path i)
  induction c generalizing store i with
  | root b => exact store.bindings_setBindings_of_ne ne b
  | child b outer ih =>
      cases hparent : store.parent? i with
      | none =>
          rw [commit, hparent]
          exact store.bindings_setBindings_of_ne ne b
      | some p =>
          have hp : t ∉ store.path p := fun mem => h (by
            rw [store.path_of_parent hparent]
            exact List.mem_cons_of_mem i mem)
          have hp' : t ∉ (store.setBindings i b).path p := by
            rwa [path_congr fun j => store.parent?_setBindings i j b]
          rw [store.commit_child_of_parent hparent,
            ih _ hp' fun e => hp (e ▸ store.self_mem_path p),
            store.bindings_setBindings_of_ne ne]

/-- Putting back what a scope shows changes nothing. -/
theorem commit_view (i : Nat) : store.commit i (store.view i) = store := by
  induction i using store.parent_induction with
  | root i hroot =>
      rw [store.view_of_root hroot]
      exact store.setBindings_bindings i
  | child i p hparent ih =>
      rw [store.view_of_parent hparent, store.commit_child_of_parent hparent,
        store.setBindings_bindings, ih]

/-- A scope that exists gets the bindings of the current scope of the chain. -/
theorem bindings_commit_self (i : Nat) (c : Chain ν) :
    (store.commit i c).bindings i = if i < store.size then c.own else store.bindings i := by
  have own : ∀ b, (store.setBindings i b).bindings i = if i < store.size then b else store.bindings i := by
    intro b
    split
    · next bound => exact store.bindings_setBindings_self bound b
    · next free => rw [store.setBindings_of_ge (Nat.le_of_not_lt free)]
  cases c with
  | root b => exact own b
  | child b outer =>
      cases hparent : store.parent? i with
      | none =>
          rw [commit, hparent]
          exact own b
      | some p =>
          have outside : i ∉ (store.setBindings i b).path p := by
            rw [path_congr fun j => store.parent?_setBindings i j b]
            exact store.not_mem_path_of_parent hparent
          rw [store.commit_child_of_parent hparent, bindings_commit_of_not_mem _ outside]
          exact own b

/-- A chain of the right length that is put back is seen from its scope. -/
theorem view_commit {i : Nat} (hi : i < store.size) {c : Chain ν}
    (h : c.depth = (store.view i).depth) : (store.commit i c).view i = c := by
  induction c generalizing store i with
  | root b =>
      cases hparent : store.parent? i with
      | none =>
          rw [view_of_root _ (by rw [parent?_commit, hparent])]
          exact congrArg Chain.root (store.bindings_setBindings_self hi b)
      | some p =>
          rw [store.view_of_parent hparent] at h
          simp [Chain.depth] at h
  | child b outer ih =>
      cases hparent : store.parent? i with
      | none =>
          rw [store.view_of_root hparent] at h
          simp [Chain.depth] at h
      | some p =>
          have lt := store.parent?_lt hparent
          have same := fun j => store.parent?_setBindings i j b
          have hview : (store.setBindings i b).view p = store.view p := by
            refine view_congr same fun t mem => store.bindings_setBindings_of_ne ?_ b
            have := store.le_of_mem_path mem
            omega
          have hdepth : outer.depth = ((store.setBindings i b).view p).depth := by
            rw [store.view_of_parent hparent] at h
            simpa [Chain.depth, hview] using h
          have hsize : p < (store.setBindings i b).size := by
            rw [size_setBindings]
            omega
          have hown : (store.commit i (.child b outer)).bindings i = b := by
            rw [store.commit_child_of_parent hparent,
              bindings_commit_of_not_mem _ (by
                rw [path_congr same]
                exact store.not_mem_path_of_parent hparent)]
            exact store.bindings_setBindings_self hi b
          rw [view_of_parent _ (by rw [parent?_commit, hparent]), hown,
            store.commit_child_of_parent hparent, ih _ hsize hdepth]

/-- Of two chains that are put back in turn, the later one stays. -/
theorem commit_commit {i : Nat} (hi : i < store.size) {c c' : Chain ν}
    (h : c.depth = (store.view i).depth) (h' : c'.depth = (store.view i).depth) :
    (store.commit i c).commit i c' = store.commit i c' := by
  have first := store.view_commit hi h
  have both : ((store.commit i c).commit i c').view i = c' :=
    view_commit _ (by rwa [size_commit]) (by rw [first, h, h'])
  refine ext_scopes (by simp only [size_commit]) (fun j => by simp only [parent?_commit]) fun t => ?_
  have parents : ∀ j, ((store.commit i c).commit i c').parent? j = (store.commit i c').parent? j :=
    fun j => by simp only [parent?_commit]
  -- On the path both stores show the later chain, and off the path no chain is put back.
  by_cases mem : t ∈ store.path i
  · refine bindings_of_view parents (both.trans (store.view_commit hi h').symm) t ?_
    rwa [path_congr fun j => store.parent?_commit i j c']
  · have outside : t ∉ (store.commit i c).path i := by
      rwa [path_congr fun j => store.parent?_commit i j c]
    rw [bindings_commit_of_not_mem _ outside, store.bindings_commit_of_not_mem mem,
      store.bindings_commit_of_not_mem mem]

end Store

end MiniLisp
