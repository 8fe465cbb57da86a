import Mathlib.Data.List.Infix
import MiniLisp.Proofs.ReadBack

/-!
Histories of an interner. A call interns one string and hands out its name; a history is a sequence of calls on
a new interner. One call keeps the two tables inverse to each other and adds at most one string at the end
(`Interner.strings_intern`), so after a history the vector lists the strings in the order in which they first
occurred (`Interner.strings_internAll`), and the names handed out are the names that the strings have in the
end (`Interner.handOut_eq`). Main statement: `Interner.history_represented`.
-/

namespace MiniLisp

namespace Interner

variable {table : Interner} {s : String} {n : Name} {past : List String}

/-- The names that a sequence of calls hands out, one for each call. -/
def handOut (table : Interner) : List String → List Name
  | [] => []
  | s :: rest => (table.intern s).1 :: (table.intern s).2.handOut rest

/-- A name that is handed out is the one that its string has ever after. -/
theorem handOut_eq (table : Interner) (calls : List String) :
    table.handOut calls = calls.map (table.internAll calls).nameOf := by
  induction calls generalizing table with
  | nil => rfl
  | cons s rest ih =>
      have kept : ((table.intern s).2.internAll rest).nameOf s = (table.intern s).1 := by
        rw [nameOf_extends (table.knows_intern s) (extends_internAll _ rest), nameOf_intern]
      calc table.handOut (s :: rest)
        _ = (table.intern s).1 :: rest.map ((table.intern s).2.internAll rest).nameOf :=
          congrArg _ (ih _)
        _ = (s :: rest).map (table.internAll (s :: rest)).nameOf := by
          rw [List.map_cons, ← kept]
          rfl

theorem knows_of_contains (h : table.index.contains s) : table.Knows s := by
  obtain ⟨n, known⟩ := Option.isSome_iff_exists.1 h
  rw [Knows, nameOf_of_index known, known]

theorem unknown_of_not_contains (h : ¬table.index.contains s) : table.index.get? s = none :=
  Option.not_isSome_iff_eq_none.1 h

/-! ### The vector -/

theorem eraseDups_concat (past : List String) (s : String) :
    (past ++ [s]).eraseDups = if s ∈ past then past.eraseDups else past.eraseDups ++ [s] := by
  rw [List.eraseDups_append]
  by_cases old : s ∈ past <;> simp [List.removeAll, List.eraseDups_cons, old]

/-- A call adds its string at the end unless it occurred before. -/
theorem strings_intern (consistent : table.Consistent) (listed : table.strings.toList = past.eraseDups)
    (s : String) : (table.intern s).2.strings.toList = (past ++ [s]).eraseDups := by
  have occurred : table.index.contains s ↔ s ∈ past := by
    rw [← consistent.mem_strings, listed, List.mem_eraseDups]
  rw [eraseDups_concat, ← listed]
  by_cases old : s ∈ past
  · rw [if_pos old, intern_of_known (knows_of_contains (occurred.2 old))]
  · rw [if_neg old, intern_of_unknown (unknown_of_not_contains (mt occurred.1 old))]
    exact Array.toList_push

theorem strings_internAll (consistent : table.Consistent)
    (listed : table.strings.toList = past.eraseDups) (calls : List String) :
    (table.internAll calls).strings.toList = (past ++ calls).eraseDups := by
  induction calls generalizing table past with
  | nil => rw [List.append_nil, ← listed]; rfl
  | cons s rest ih =>
      have run := ih (consistent.intern s) (strings_intern consistent listed s)
      rwa [List.append_assoc] at run

theorem strings_internAll_new (calls : List String) :
    (new.internAll calls).strings.toList = ("" :: calls).eraseDups := by
  have start : new.strings.toList = [""].eraseDups := rfl
  exact strings_internAll consistent_new start calls

/-! ### Names and strings -/

theorem knows_of_mem_history {calls : List String} (h : s ∈ "" :: calls) :
    (new.internAll calls).Knows s :=
  knows_of_contains ((contains_internAll_new calls s).2 (List.mem_cons.1 h))

theorem unknown_of_not_mem_history {calls : List String} (h : s ∉ "" :: calls) :
    (new.internAll calls).index.get? s = none :=
  unknown_of_not_contains fun known => h (List.mem_cons.2 ((contains_internAll_new calls s).1 known))

theorem Consistent.lookup_nameOf (h : table.Consistent) (known : table.Knows s) (later : List String) :
    (table.internAll later).lookup (table.nameOf s) = s :=
  (h.internAll later).lookup_of_index (extends_internAll table later s _ known)

/-- A place of the vector is the name of the string at it. -/
theorem Consistent.nameOf_of_stored (h : table.Consistent) (stored : table.strings[n.raw]? = some s) :
    table.nameOf s = n :=
  nameOf_of_index ((h s n).2 stored)

theorem map_lookup_handOut (calls later : List String) :
    (new.handOut calls).map ((new.internAll calls).internAll later).lookup = calls := by
  rw [handOut_eq, List.map_map]
  refine (List.map_congr_left fun s mem => ?_).trans calls.map_id
  exact (consistent_new.internAll calls).lookup_nameOf (knows_internAll _ mem) later

/-- Two calls hand out one name if and only if they intern one string. -/
theorem handOut_getElem?_eq_iff (calls : List String) (i j : Nat) :
    (new.handOut calls)[i]? = (new.handOut calls)[j]? ↔ calls[i]? = calls[j]? := by
  constructor
  · intro same
    have back := map_lookup_handOut calls []
    rw [← back, List.getElem?_map, List.getElem?_map, same]
  · intro same
    rw [handOut_eq, List.getElem?_map, List.getElem?_map, same]

theorem raw_lt_of_mem_handOut {calls : List String} (h : n ∈ new.handOut calls) :
    n.raw < (new.internAll calls).size := by
  rw [handOut_eq] at h
  obtain ⟨s, mem, rfl⟩ := List.mem_map.1 h
  have stored := (consistent_new.internAll calls s _).1 (knows_internAll new mem)
  exact (Array.getElem?_eq_some_iff.1 stored).1

/-- What stands at a place that was not handed out is the empty string, which was there from the start. -/
theorem lookup_of_not_mem_handOut {calls : List String} (h : n ∉ new.handOut calls) :
    (new.internAll calls).lookup n = "" := by
  have consistent := consistent_new.internAll calls
  rw [lookup]
  cases stored : (new.internAll calls).strings[n.raw]? with
  | none => rfl
  | some s =>
      have contained : (new.internAll calls).index.contains s :=
        Option.isSome_iff_exists.2 ⟨n, (consistent s n).2 stored⟩
      rcases (contains_internAll_new calls s).1 contained with rfl | mem
      · rfl
      · rw [handOut_eq] at h
        exact absurd (List.mem_map.2 ⟨s, mem, consistent.nameOf_of_stored stored⟩) h

/-- What an interner holds, and what its names stand for, after a sequence of calls that handed out these
names. -/
structure Represents (calls : List String) (table : Interner) (names : List Name) : Prop where
  /-- The dictionary and the vector are inverse to each other. -/
  inverse : ∀ s n, table.index.get? s = some n ↔ table.strings[n.raw]? = some s
  nodup : table.strings.toList.Nodup
  empty : table.strings[0]? = some ""
  /-- The strings are numbered in the order in which they first occurred. -/
  order : table.strings.toList = ("" :: calls).eraseDups
  size : table.size = 1 + (calls.toFinset.erase "").card
  /-- Every name leads back to its string, whatever is interned later. -/
  readBack : ∀ later, names.map (table.internAll later).lookup = calls
  /-- Two calls hand out one name if and only if they intern one string. -/
  distinct : ∀ i j : Nat, names[i]? = names[j]? ↔ calls[i]? = calls[j]?
  /-- A string that occurred before changes nothing. -/
  known : ∀ s ∈ "" :: calls, (table.intern s).2 = table
  /-- A new string gets the next number. -/
  fresh : ∀ s, s ∉ "" :: calls →
    (table.intern s).1.raw = table.size ∧ (table.intern s).2.size = table.size + 1
  /-- A number that was handed out is a place of the vector, and so it has 32 bits as long as the vector has
  no more than `2 ^ 32` places. -/
  bounded : ∀ n ∈ names, n.raw < table.size
  /-- Any other name has the empty string. -/
  unused : ∀ n, n ∉ names → table.lookup n = ""

/-- A new interner represents every history. -/
theorem history_represented (calls : List String) :
    Represents calls (new.internAll calls) (new.handOut calls) where
  inverse := consistent_new.internAll calls
  nodup := (consistent_new.internAll calls).nodup
  empty := by
    rw [← Array.getElem?_toList, strings_internAll_new, List.eraseDups_cons]
    rfl
  order := strings_internAll_new calls
  size := size_internAll_new calls
  readBack := map_lookup_handOut calls
  distinct := handOut_getElem?_eq_iff calls
  known s mem := by rw [intern_of_known (knows_of_mem_history mem)]
  fresh s new := by
    rw [intern_of_unknown (unknown_of_not_mem_history new)]
    exact ⟨rfl, Array.size_push _⟩
  bounded _ mem := raw_lt_of_mem_handOut mem
  unused _ absent := lookup_of_not_mem_handOut absent

example : new.handOut ["x", "counter", "x", ""] = [⟨1⟩, ⟨2⟩, ⟨1⟩, ⟨0⟩] := by decide

end Interner

end MiniLisp
