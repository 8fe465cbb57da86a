import Mathlib.Order.Filter.AtTopBot.Basic
import MiniLisp.Proofs.Outcome

/-!
Following a computation with fuel to spare. A family of computations follows a computation if it ends
in the same way, in a related state, with all large enough fuels (`Run.SimulatedBy`). What is followed
part by part is followed as a whole (`Run.SimulatedBy.bind`), and a family that is fed one unit of fuel
more each time follows the same computations (`Run.SimulatedBy.of_shift`).
-/

open Filter

namespace MiniLisp

variable {σ τ ε α β : Type} {S : σ → τ → Prop}

/-- Both outcomes are the same value or the same error, in related states. -/
inductive Outcome.Matches (S : σ → τ → Prop) : Outcome σ ε α → Outcome τ ε α → Prop
  | value {a : α} {s : σ} {t : τ} : S s t → Matches S (.value a s) (.value a t)
  | error {e : ε} {s : σ} {t : τ} : S s t → Matches S (.error e s) (.error e t)

namespace Outcome.Matches

variable {out : Outcome σ ε α} {out' : Outcome τ ε α}

theorem ne_exhausted (h : Matches S out out') : out' ≠ .exhausted := by
  cases h with
  | value _ => nofun
  | error _ => nofun

theorem after? (h : Matches S out out') {s : σ} (ended : out.after? = some s) :
    ∃ t, out'.after? = some t ∧ S s t := by
  cases h with
  | value after =>
      cases ended
      exact ⟨_, rfl, after⟩
  | error after =>
      cases ended
      exact ⟨_, rfl, after⟩

theorem map (h : Matches S out out') (f : α → β) : Matches S (out.map f) (out'.map f) := by
  cases h with
  | value after => exact .value after
  | error after => exact .error after

theorem mono {T : σ → τ → Prop} (h : Matches S out out') (imp : ∀ s t, S s t → T s t) :
    Matches T out out' := by
  cases h with
  | value after => exact .value (imp _ _ after)
  | error after => exact .error (imp _ _ after)

theorem exit {T : σ → τ → Prop} {leave : σ → σ} {leave' : τ → τ} {mark : σ → ε → ε}
    {mark' : τ → ε → ε} (h : Matches S out out') (left : ∀ s t, S s t → T (leave s) (leave' t))
    (marked : ∀ s t e, S s t → mark' t e = mark s e) :
    Matches T (out.exit leave mark) (out'.exit leave' mark') := by
  cases h with
  | value after => exact .value (left _ _ after)
  | @error e s t after =>
      show Matches T (.error (mark s e) _) (.error (mark' t e) _)
      rw [marked s t e after]
      exact .error (left s t after)

end Outcome.Matches

theorem Outcome.Follows.matches {S : σ → σ → Prop} {out out' : Outcome σ ε α}
    (h : Follows S out out') (done : out ≠ .exhausted) : Matches S out out' := by
  cases h with
  | value after => exact .value after
  | error after => exact .error after
  | exhausted => exact absurd rfl done

/-- If the outcome is a value or an error, all late enough outcomes of the family are one match of it. -/
def Outcome.ApproachedBy (S : σ → τ → Prop) (out : Outcome σ ε α) (outs : Nat → Outcome τ ε α) :
    Prop :=
  out ≠ .exhausted → ∃ out', Matches S out out' ∧ ∀ᶠ n in atTop, outs n = out'

namespace Outcome.ApproachedBy

variable {out : Outcome σ ε α} {outs outs' : Nat → Outcome τ ε α}

theorem of_matches {out' : Outcome τ ε α} (h : Matches S out out') :
    ApproachedBy S out fun _ => out' :=
  fun _ => ⟨out', h, .of_forall fun _ => rfl⟩

theorem congr (h : ApproachedBy S out outs) (same : ∀ᶠ n in atTop, outs' n = outs n) :
    ApproachedBy S out outs' := by
  intro ended
  obtain ⟨out', matched, late⟩ := h ended
  refine ⟨out', matched, ?_⟩
  filter_upwards [late, same] with n reached equal
  rw [equal, reached]

theorem of_shift (h : ApproachedBy S out fun n => outs (n + 1)) : ApproachedBy S out outs := by
  intro ended
  obtain ⟨out', matched, late⟩ := h ended
  refine ⟨out', matched, ?_⟩
  rw [← map_add_atTop_eq_nat 1, eventually_map]
  exact late

theorem exit {T : σ → τ → Prop} {leave : σ → σ} {leave' : τ → τ} {mark : σ → ε → ε}
    {mark' : τ → ε → ε} (h : ApproachedBy S out outs)
    (left : ∀ s t, S s t → T (leave s) (leave' t))
    (marked : ∀ s t e, S s t → mark' t e = mark s e) :
    ApproachedBy T (out.exit leave mark) fun n => (outs n).exit leave' mark' := by
  intro ended
  obtain ⟨out', matched, late⟩ := h (mt exit_eq_exhausted.2 ended)
  refine ⟨out'.exit leave' mark', matched.exit left marked, ?_⟩
  filter_upwards [late] with n reached
  rw [reached]

end Outcome.ApproachedBy

namespace Run

/-- Wherever the computation ends, the family ends in the same way with all large enough fuels. -/
def SimulatedBy (S : σ → τ → Prop) (x : Run σ ε α) (y : Nat → Run τ ε α) : Prop :=
  ∀ s t, S s t → Outcome.ApproachedBy S (x s) fun n => y n t

namespace SimulatedBy

variable {x : Run σ ε α} {y z : Nat → Run τ ε α}

theorem of_matches {z : Run τ ε α} (h : ∀ s t, S s t → Outcome.Matches S (x s) (z t)) :
    SimulatedBy S x fun _ => z :=
  fun s t related => .of_matches (h s t related)

theorem pure (a : α) : SimulatedBy S (pure a : Run σ ε α) fun _ => pure a :=
  of_matches fun _ _ related => .value related

theorem exhausted : SimulatedBy S (Run.exhausted : Run σ ε α) y :=
  fun _ _ _ ended => absurd rfl ended

theorem bind {f : α → Run σ ε β} {g : Nat → α → Run τ ε β} (h : SimulatedBy S x y)
    (hf : ∀ a, SimulatedBy S (f a) fun n => g n a) :
    SimulatedBy S (x >>= f) fun n => y n >>= g n := by
  intro s t related ended
  have first : x s ≠ .exhausted := fun lacking => ended (bind_of_exhausted lacking)
  obtain ⟨out, matched, late⟩ := h s t related first
  generalize hx : x s = reached at matched
  cases matched with
  | @value a s' t' after =>
      rw [bind_of_value hx] at ended ⊢
      obtain ⟨out, matched, late'⟩ := hf a s' t' after ended
      refine ⟨out, matched, ?_⟩
      filter_upwards [late, late'] with n hy hg
      rw [bind_of_value hy, hg]
  | @error e s' t' after =>
      rw [bind_of_error hx]
      refine ⟨_, .error after, ?_⟩
      filter_upwards [late] with n hy
      rw [bind_of_error hy]

theorem congr (h : SimulatedBy S x y) (same : ∀ᶠ n in atTop, z n = y n) : SimulatedBy S x z :=
  fun s t related => (h s t related).congr (same.mono fun _ equal => congrFun equal t)

theorem of_shift (h : SimulatedBy S x fun n => y (n + 1)) : SimulatedBy S x y :=
  fun s t related => (h s t related).of_shift

end SimulatedBy

end Run

end MiniLisp
