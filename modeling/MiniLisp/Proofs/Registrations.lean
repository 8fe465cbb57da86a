import Mathlib.Data.List.Dedup
import Mathlib.Data.List.Nodup
import MiniLisp.FunctionTable

/-!
A table of functions and the definitions registered in it so far. The table shows the definition that
was registered last under a name, and its size is the number of names that were registered
(`FunctionTable.Records`); registering one more definition keeps it so (`Records.define`).
-/

namespace MiniLisp

namespace Dictionary

variable {κ α : Type} [DecidableEq κ] {d : Dictionary κ α} {x y : κ} {a : α}

theorem mem_keys : x ∈ d.keys ↔ d.get? x ≠ none := by
  obtain ⟨l⟩ := d
  show x ∈ l.map Prod.fst ↔ find l x ≠ none
  induction l with
  | nil => simp [find]
  | cons entry rest ih =>
      obtain ⟨k, b⟩ := entry
      by_cases hk : k = x
      · simp [find, hk]
      · have ne : x ≠ k := fun e => hk e.symm
        simp only [List.map_cons, List.mem_cons, ne, false_or, ih, find, hk, if_false]

theorem mem_keys_set : y ∈ (d.set x a).keys ↔ y = x ∨ y ∈ d.keys := by
  rw [mem_keys, mem_keys, get?_set]
  by_cases h : x = y
  · simp [h]
  · have ne : y ≠ x := fun e => h e.symm
    simp [h, ne]

/-- No key has two entries. -/
theorem nodup_keys_set (h : d.keys.Nodup) : (d.set x a).keys.Nodup := by
  obtain ⟨l⟩ := d
  induction l with
  | nil => exact List.nodup_singleton x
  | cons entry rest ih =>
      obtain ⟨k, b⟩ := entry
      obtain ⟨absent, distinct⟩ := List.nodup_cons.1 h
      by_cases hk : k = x
      · subst hk
        simpa [set, put, keys] using h
      · have absent' : k ∉ (Dictionary.set ⟨rest⟩ x a).keys := fun mem =>
          (mem_keys_set.1 mem).elim hk absent
        have := List.nodup_cons.2 ⟨absent', ih distinct⟩
        simpa [set, put, keys, hk] using this

end Dictionary

namespace FunctionTable

variable {ν : Type} {history : List (FunctionDef ν)} {fn : FunctionDef ν} {f : ν} {found : Definition ν}

/-- The definition is the last one registered under a name, which is its own. Its serial number is the
number of registrations before it. -/
structure Latest (history : List (FunctionDef ν)) (f : ν) (found : Definition ν) : Prop where
  registered : history[found.serial]? = some found.fn
  named : found.fn.name = f
  last : ∀ k fn, found.serial < k → history[k]? = some fn → fn.name ≠ f

theorem Latest.serial_lt (h : Latest history f found) : found.serial < history.length :=
  (List.getElem?_eq_some_iff.1 h.registered).1

/-- A definition that was just registered is the last one under its name. -/
theorem latest_append_self :
    Latest (history ++ [fn]) fn.name found ↔ found = ⟨history.length, fn⟩ := by
  constructor
  · intro h
    have end_le : history.length ≤ found.serial := by
      by_contra before
      exact h.last history.length fn (Nat.lt_of_not_le before) (by simp) rfl
    have lt := h.serial_lt
    rw [List.length_append, List.length_singleton] at lt
    have serial : found.serial = history.length := by omega
    have registered := h.registered
    rw [serial, List.getElem?_concat_length] at registered
    obtain ⟨k, g⟩ := found
    cases serial
    cases registered
    rfl
  · rintro rfl
    refine ⟨List.getElem?_concat_length .., rfl, fun k g later known => ?_⟩
    have bound := (List.getElem?_eq_some_iff.1 known).1
    rw [List.length_append, List.length_singleton] at bound
    exact absurd later (Nat.not_lt.2 (Nat.le_of_lt_succ bound))

/-- A definition of another name does not matter. -/
theorem latest_append_of_ne (other : fn.name ≠ f) :
    Latest (history ++ [fn]) f found ↔ Latest history f found := by
  constructor
  · intro h
    have lt := h.serial_lt
    rw [List.length_append, List.length_singleton] at lt
    have inside : found.serial < history.length := by
      by_contra outside
      have serial : found.serial = history.length := by omega
      have registered := h.registered
      rw [serial, List.getElem?_concat_length] at registered
      cases registered
      exact other h.named
    refine ⟨?_, h.named, fun k g later known => h.last k g later ?_⟩
    · rw [← List.getElem?_append_left inside]
      exact h.registered
    · rw [List.getElem?_append_left (List.getElem?_eq_some_iff.1 known).1]
      exact known
  · intro h
    refine ⟨?_, h.named, fun k g later known => ?_⟩
    · rw [List.getElem?_append_left h.serial_lt]
      exact h.registered
    · rw [List.getElem?_append] at known
      split at known
      · exact h.last k g later known
      · obtain rfl := List.mem_singleton.1 (List.mem_of_getElem? known)
        exact other

variable [DecidableEq ν] {table : FunctionTable ν}

/-- A table shows what was registered in it. -/
structure Records (table : FunctionTable ν) (history : List (FunctionDef ν)) : Prop where
  /-- Each name stands for the definition registered last under it. -/
  known : ∀ f found, table.get? f = some found ↔ Latest history f found
  /-- Names that were never registered stand for nothing. -/
  unknown : ∀ f, table.get? f = none ↔ ∀ fn ∈ history, fn.name ≠ f
  nextSerial : table.nextSerial = history.length
  keys : table.definitions.keys.Nodup

theorem records_new : Records (new : FunctionTable ν) [] where
  known f found := ⟨nofun, fun h => by cases h.registered⟩
  unknown f := by simp [get?, new]
  nextSerial := rfl
  keys := List.nodup_nil

/-- One more registration is recorded too. -/
theorem Records.define (h : table.Records history) (fn : FunctionDef ν) :
    Records (table.define fn).2 (history ++ [fn]) where
  known f found := by
    rw [get?_define]
    by_cases named : fn.name = f
    · subst named
      rw [if_pos rfl, latest_append_self, h.nextSerial, Option.some.injEq, eq_comm]
    · rw [if_neg named, latest_append_of_ne named, h.known]
  unknown f := by
    rw [get?_define, List.forall_mem_append, List.forall_mem_singleton, ← h.unknown]
    by_cases named : fn.name = f <;> simp [named]
  nextSerial := by
    rw [List.length_append, List.length_singleton, ← h.nextSerial]
    rfl
  keys := Dictionary.nodup_keys_set h.keys

/-- The size of a table is the number of names that were registered. -/
theorem Records.size (h : table.Records history) :
    table.size = (history.map FunctionDef.name).dedup.length := by
  have same : ∀ f, f ∈ table.definitions.keys ↔ f ∈ (history.map FunctionDef.name).dedup := by
    intro f
    rw [Dictionary.mem_keys, List.mem_dedup, List.mem_map]
    refine (not_congr (h.unknown f)).trans ?_
    push Not
    rfl
  calc table.size
    _ = table.definitions.keys.length := by simp [FunctionTable.size, Dictionary.size, Dictionary.keys]
    _ = _ := ((List.perm_ext_iff_of_nodup h.keys (List.nodup_dedup _)).2 same).length_eq

end FunctionTable

end MiniLisp
