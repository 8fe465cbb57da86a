import MiniLisp.Proofs.Operands
import MiniLisp.Proofs.Promotion

/-!
`MAX` and `MIN`. Two integers are compared exactly, any other pair as floats. An operand can therefore be
equal to two others that are not equal to each other, and a best operand that was replaced says nothing
by itself about the ones it has beaten. The fold keeps two facts instead (`Extremum.Leads`): no operand has
a better rank than the best one, and no integer is better than the best one if that is an integer.
-/

namespace MiniLisp

namespace Number

/-- Two numbers are compared as integers or as floats. -/
theorem ints_or_promoted (a b : Number) :
    (∃ m n, a = int m ∧ b = int n) ∨ a.isFloat ∨ b.isFloat := by
  cases a with
  | float x => exact .inr (.inl rfl)
  | int m =>
      cases b with
      | float y => exact .inr (.inr rfl)
      | int n => exact .inl ⟨m, n, rfl, rfl⟩

/-- The rank of the float that stands for a number. -/
def rank? (n : Number) : Option Int := Binary64.rank? n.toFloat

@[simp] theorem rank?_int (n : Int64) : (int n).rank? = some (Binary64.promotedRank n) :=
  Binary64.rank?_ofWord n

theorem compare_ints (a b : Int64) :
    (int a).compare (int b) = some (Ord.compare a.toInt b.toInt) := by
  simp only [compare, Int64.lt_iff_toInt_lt]
  rcases Int.lt_trichotomy a.toInt b.toInt with lt | same | gt
  · rw [if_pos lt, Int.compare_eq_lt.2 lt]
  · rw [same, if_neg (Int.lt_irrefl _), if_neg (Int.lt_irrefl _), Int.compare_eq_eq.2 rfl]
  · rw [if_neg (Int.lt_asymm gt), if_pos gt, Int.compare_eq_gt.2 gt]

theorem compare_promoted {a b : Number} (h : a.isFloat ∨ b.isFloat) :
    a.compare b = a.rank?.bind fun i => b.rank?.map fun j => Ord.compare i j := by
  have floats : a.compare b = Binary64.compare? a.toFloat b.toFloat := by
    unfold compare
    split
    · simp [isFloat] at h
    · rfl
  rw [floats]
  exact Binary64.compare?_eq _ _

/-- No operand is a float that is not a number, and different integers are promoted to different floats. -/
structure Separated (ns : List Number) : Prop where
  numbers : ∀ {x : Float}, float x ∈ ns → x.isNaN = false
  apart : ∀ {a b : Int64}, int a ∈ ns → int b ∈ ns → a ≠ b → Binary64.ofWord a ≠ Binary64.ofWord b

namespace Separated

variable {ns : List Number}

theorem of_append {ms : List Number} (h : Separated (ns ++ ms)) : Separated ns where
  numbers mem := h.numbers (List.mem_append_left ms mem)
  apart memA memB := h.apart (List.mem_append_left ms memA) (List.mem_append_left ms memB)

theorem ranked (h : Separated ns) {n : Number} (mem : n ∈ ns) : ∃ i, n.rank? = some i := by
  cases n with
  | int n => exact ⟨_, rank?_int n⟩
  | float x =>
      refine Option.ne_none_iff_exists'.1 fun none => ?_
      have nan : x.isNaN := Binary64.isNaN_iff.2 none
      rw [h.numbers mem] at nan
      cases nan

theorem ranks_ne (h : Separated ns) {a b : Int64} (memA : int a ∈ ns) (memB : int b ∈ ns) (ne : a ≠ b) :
    Binary64.promotedRank a ≠ Binary64.promotedRank b :=
  fun same => h.apart memA memB ne (Binary64.ofWord_congr same)

end Separated

end Number

namespace Extremum

variable {op : Extremum} {a b best candidate : Number} {seen : List Number} {i j : Int}

/-- The operator selects a greatest operand in the order of the keys. -/
def key : Extremum → Int → Int
  | max, i => i
  | min, i => -i

theorem compare_eq_wanted : compare i j = op.wanted ↔ op.key j < op.key i := by
  cases op with
  | max => exact Int.compare_eq_gt
  | min => exact Int.compare_eq_lt.trans Int.neg_lt_neg_iff.symm

/-- The first operand is strictly better than the second: `MAX` looks for a greater one, `MIN` for a
smaller one. -/
def Beats : Extremum → Number → Number → Prop
  | max, a, b => a.compare b = some .gt
  | min, a, b => a.compare b = some .lt

/-- None of the operands is strictly better. -/
def Unbeaten (op : Extremum) (ns : List Number) (best : Number) : Prop := ∀ n ∈ ns, ¬op.Beats n best

/-- The fold asks for the better one of two operands. -/
theorem beats_iff : op.Beats a b ↔ a.compare b = some op.wanted := by
  cases op <;> rfl

theorem beats_ints {m n : Int64} : op.Beats (.int m) (.int n) ↔ op.key n.toInt < op.key m.toInt := by
  rw [beats_iff, Number.compare_ints, Option.some_inj]
  exact compare_eq_wanted

theorem beats_promoted (h : a.isFloat ∨ b.isFloat) :
    op.Beats a b ↔ ∃ i j, a.rank? = some i ∧ b.rank? = some j ∧ op.key j < op.key i := by
  rw [beats_iff, Number.compare_promoted h]
  cases a.rank? <;> cases b.rank? <;> simp [compare_eq_wanted]

theorem key_promotedRank_mono {m n : Int64} (h : op.key m.toInt ≤ op.key n.toInt) :
    op.key (Binary64.promotedRank m) ≤ op.key (Binary64.promotedRank n) := by
  cases op with
  | max => exact Binary64.promotedRank_mono (Int64.le_iff_toInt_le.2 h)
  | min =>
      exact Int.neg_le_neg (Binary64.promotedRank_mono (Int64.le_iff_toInt_le.2 (Int.neg_le_neg_iff.1 h)))

/-- A better rank always wins, also between integers. -/
theorem beats_of_rank_lt (rankA : a.rank? = some i) (rankB : b.rank? = some j)
    (lt : op.key j < op.key i) : op.Beats a b := by
  rcases Number.ints_or_promoted a b with ⟨m, n, rfl, rfl⟩ | float
  · rw [Number.rank?_int, Option.some_inj] at rankA rankB
    subst rankA rankB
    exact beats_ints.2 (Int.not_le.1 fun le => Int.not_le.2 lt (key_promotedRank_mono le))
  · exact (beats_promoted float).2 ⟨i, j, rankA, rankB, lt⟩

/-- The winner has at least the rank of the loser. -/
theorem ranks_of_beats (h : op.Beats a b) :
    ∃ i j, a.rank? = some i ∧ b.rank? = some j ∧ op.key j ≤ op.key i := by
  rcases Number.ints_or_promoted a b with ⟨m, n, rfl, rfl⟩ | float
  · exact ⟨_, _, Number.rank?_int m, Number.rank?_int n,
      key_promotedRank_mono (Int.le_of_lt (beats_ints.1 h))⟩
  · obtain ⟨i, j, rankA, rankB, lt⟩ := (beats_promoted float).1 h
    exact ⟨i, j, rankA, rankB, Int.le_of_lt lt⟩

theorem key_injective (h : op.key i = op.key j) : i = j := by
  cases op with
  | max => exact h
  | min => exact Int.neg_inj.1 h

/-- Where different integers have different ranks, the winner has the better rank. -/
theorem rank_lt_of_beats {ns : List Number} (separated : Number.Separated ns) (memA : a ∈ ns)
    (memB : b ∈ ns) (h : op.Beats a b) (rankA : a.rank? = some i) (rankB : b.rank? = some j) :
    op.key j < op.key i := by
  rcases Number.ints_or_promoted a b with ⟨m, n, rfl, rfl⟩ | float
  · have better := beats_ints.1 h
    have ne : m ≠ n := fun same => Int.lt_irrefl _ (same ▸ better)
    rw [Number.rank?_int, Option.some_inj] at rankA rankB
    subst rankA rankB
    exact Int.lt_iff_le_and_ne.2 ⟨key_promotedRank_mono (Int.le_of_lt better),
      fun same => separated.ranks_ne memA memB ne (key_injective same).symm⟩
  · obtain ⟨_, _, rankA', rankB', lt⟩ := (beats_promoted float).1 h
    cases rankA.symm.trans rankA'
    cases rankB.symm.trans rankB'
    exact lt

/-- What the fold knows of the best operand so far. The third fact is about the ones that came before it. -/
structure Leads (op : Extremum) (best : Number) (seen : List Number) : Prop where
  ranks : ∀ {n i j}, n ∈ seen → n.rank? = some i → best.rank? = some j → op.key i ≤ op.key j
  ints : ∀ {m n : Int64}, best = .int n → .int m ∈ seen → op.key m.toInt ≤ op.key n.toInt
  first : ∃ before after, seen = before ++ best :: after ∧
    (Number.Separated seen → ∀ n ∈ before, op.Beats best n)

namespace Leads

theorem start (op : Extremum) (first : Number) : op.Leads first [first] where
  ranks mem rankN rankBest := by
    rw [List.mem_singleton.1 mem, rankBest] at rankN
    cases rankN
    exact Int.le_refl _
  ints best mem := by
    cases (List.mem_singleton.1 mem).trans best
    exact Int.le_refl _
  first := ⟨[], [], rfl, fun _ n mem => absurd mem List.not_mem_nil⟩

theorem unbeaten (h : op.Leads best seen) : op.Unbeaten seen best := by
  intro n mem beats
  rcases Number.ints_or_promoted n best with ⟨k, l, rfl, rfl⟩ | float
  · exact Int.not_le.2 (beats_ints.1 beats) (h.ints rfl mem)
  · obtain ⟨i, j, rankN, rankBest, lt⟩ := (beats_promoted float).1 beats
    exact Int.not_le.2 lt (h.ranks mem rankN rankBest)

/-- A candidate that is not better changes nothing. -/
theorem keep (h : op.Leads best seen) (loses : ¬op.Beats candidate best) :
    op.Leads best (seen ++ [candidate]) where
  ranks mem rankN rankBest := by
    rcases List.mem_append.1 mem with old | new
    · exact h.ranks old rankN rankBest
    · cases List.mem_singleton.1 new
      exact Int.not_lt.1 fun lt => loses (beats_of_rank_lt rankN rankBest lt)
  ints best mem := by
    rcases List.mem_append.1 mem with old | new
    · exact h.ints best old
    · cases List.mem_singleton.1 new
      subst best
      exact Int.not_lt.1 fun lt => loses (beats_ints.2 lt)
  first := by
    obtain ⟨before, after, rfl, beaten⟩ := h.first
    refine ⟨before, after ++ [candidate], by rw [List.append_assoc, List.cons_append], ?_⟩
    exact fun separated => beaten separated.of_append

/-- No integer seen is better than an integer that beats the best operand. If that is an integer too, it is
beaten exactly. If it is a float, it is beaten by rank, and no integer seen has a better rank than it has. -/
theorem int_le_of_beats (h : op.Leads best seen) {m n : Int64} (wins : op.Beats (.int n) best)
    (mem : .int m ∈ seen) : op.key m.toInt ≤ op.key n.toInt := by
  cases best with
  | int k => exact Int.le_trans (h.ints rfl mem) (Int.le_of_lt (beats_ints.1 wins))
  | float x =>
      obtain ⟨i, j, rankN, rankBest, lt⟩ := (beats_promoted (.inr rfl)).1 wins
      have le := h.ranks mem (Number.rank?_int m) rankBest
      rw [Number.rank?_int, Option.some_inj] at rankN
      subst rankN
      refine Int.not_lt.1 fun better => ?_
      exact Int.not_le.2 (Int.lt_of_le_of_lt le lt) (key_promotedRank_mono (Int.le_of_lt better))

/-- A better candidate takes over. -/
theorem replace (h : op.Leads best seen) (wins : op.Beats candidate best) :
    op.Leads candidate (seen ++ [candidate]) := by
  obtain ⟨i, j, rankC, rankBest, le⟩ := ranks_of_beats wins
  refine ⟨?_, ?_, seen, [], rfl, ?_⟩
  · intro n k l mem rankN rankC'
    cases rankC.symm.trans rankC'
    rcases List.mem_append.1 mem with old | new
    · exact Int.le_trans (h.ranks old rankN rankBest) le
    · cases List.mem_singleton.1 new
      cases rankC.symm.trans rankN
      exact Int.le_refl _
  · intro m n candidate mem
    subst candidate
    rcases List.mem_append.1 mem with old | new
    · exact h.int_le_of_beats wins old
    · cases List.mem_singleton.1 new
      exact Int.le_refl _
  · intro separated n mem
    have memBest : best ∈ seen := by
      obtain ⟨before, after, rfl, -⟩ := h.first
      exact List.mem_append_right before List.mem_cons_self
    have lt := rank_lt_of_beats separated (List.mem_append_right seen List.mem_cons_self)
      (List.mem_append_left _ memBest) wins rankC rankBest
    obtain ⟨k, rankN⟩ := separated.of_append.ranked mem
    exact beats_of_rank_lt rankC rankN (Int.lt_of_le_of_lt (h.ranks mem rankN rankBest) lt)

/-- One step of the fold. -/
theorem pick (h : op.Leads best seen) (candidate : Number) :
    op.Leads (op.pick best candidate) (seen ++ [candidate]) := by
  unfold Extremum.pick
  split
  · next wins => exact h.replace (beats_iff.2 wins)
  · next loses => exact h.keep (mt beats_iff.1 loses)

theorem foldl (h : op.Leads best seen) (rest : List Number) :
    op.Leads (rest.foldl op.pick best) (seen ++ rest) := by
  induction rest generalizing best seen with
  | nil => rwa [List.append_nil]
  | cons candidate rest ih =>
      have run := ih (h.pick candidate)
      rwa [List.append_assoc] at run

end Leads

theorem apply_leads (op : Extremum) (first : Number) (rest : List Number) :
    op.Leads (op.apply first rest) (first :: rest) :=
  (Leads.start op first).foldl rest

end Extremum

namespace VariadicOp

theorem apply_extremum (op : Extremum) (first : Number) (rest : List Number) :
    (extremum op).apply ((first :: rest).map .number) = .ok (.number (op.apply first rest)) :=
  Operand.numbers_then _ first rest _

/-- `MAX` and `MIN` give one of the operands, and no operand is strictly better. It is the first such one if
there is no float that is not a number and different integers stay different as floats. -/
theorem extremum_selects (op : Extremum) (first : Number) (rest : List Number) :
    ∃ before best after, first :: rest = before ++ best :: after ∧
      (extremum op).apply ((first :: rest).map .number) = .ok (.number best) ∧
      op.Unbeaten (first :: rest) best ∧
      (Number.Separated (first :: rest) → ∀ n ∈ before, ¬op.Unbeaten (first :: rest) n) := by
  have leads := op.apply_leads first rest
  obtain ⟨before, after, split, beaten⟩ := leads.first
  refine ⟨before, _, after, split, apply_extremum op first rest, leads.unbeaten, ?_⟩
  intro separated n mem unbeaten
  have memBest : op.apply first rest ∈ first :: rest := by
    rw [split]
    exact List.mem_append_right before List.mem_cons_self
  exact unbeaten _ memBest (beaten separated n mem)

/-- No operand is above the float, but the integer after it is selected, which is above the first. -/
example :
    (extremum .max).apply [.int 9007199254740992, .float 9007199254740992, .int 9007199254740993] =
      .ok (.int 9007199254740993) := by
  rfl

end VariadicOp

end MiniLisp
