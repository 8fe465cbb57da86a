import MiniLisp.Proofs.Fuel
import MiniLisp.Proofs.Simulation

/-!
Where computations end when fuel does not matter. A family of computations is stable if more fuel only
extends it; then it ends where it ends with all large enough fuels, and a sequence of two families ends
where the first fails or where the second ends after it (`Run.reaches_bind`). A computation over a list of
items that goes on after some items and is over after others ends after the last item or with the first
one that it does not pass (`GoesThrough.ends`).
-/

open Filter

namespace MiniLisp

variable {σ ε α β : Type}

namespace Run

/-- More fuel only extends the computations of the family. -/
def Stable (x : Nat → Run σ ε α) : Prop := ∀ n m, n ≤ m → Extends (x n) (x m)

/-- With some amount of fuel the family ends in this way. -/
def Reaches (x : Nat → Run σ ε α) (s : σ) (out : Outcome σ ε α) : Prop :=
  out ≠ .exhausted ∧ ∃ fuel, x fuel s = out

namespace Stable

theorem const (x : Run σ ε α) : Stable fun _ => x := fun _ _ _ _ _ => rfl

theorem bind {x : Nat → Run σ ε α} {f : Nat → α → Run σ ε β} (hx : Stable x)
    (hf : ∀ a, Stable (f · a)) : Stable fun n => x n >>= f n := fun n m le =>
  Extends.bind (hx n m le) fun a => hf a n m le

theorem ite {p : Prop} [Decidable p] {x y : Nat → Run σ ε α} (hx : Stable x) (hy : Stable y) :
    Stable fun n => if p then x n else y n := by
  split
  · exact hx
  · exact hy

end Stable

variable {x y : Nat → Run σ ε α} {s : σ} {out out' : Outcome σ ε α}

namespace Reaches

theorem unique (stable : Stable x) (h : Reaches x s out) (h' : Reaches x s out') : out = out' :=
  Outcome.Converges.unique (fun n m le => stable n m le s) h h'

theorem eventually (stable : Stable x) (h : Reaches x s out) : ∀ᶠ n in atTop, x n s = out := by
  obtain ⟨done, fuel, rfl⟩ := h
  exact eventually_atTop.2 ⟨fuel, fun n le => stable fuel n le s done⟩

theorem of_eventually (done : out ≠ .exhausted) (h : ∀ᶠ n in atTop, x n s = out) : Reaches x s out :=
  ⟨done, h.exists⟩

end Reaches

theorem reaches_congr (hx : Stable x) (hy : Stable y) (same : ∀ᶠ n in atTop, x n s = y n s) :
    Reaches x s out ↔ Reaches y s out := by
  constructor
  · intro h
    refine .of_eventually h.1 ?_
    filter_upwards [same, h.eventually hx] with n equal reached
    rw [← equal, reached]
  · intro h
    refine .of_eventually h.1 ?_
    filter_upwards [same, h.eventually hy] with n equal reached
    rw [equal, reached]

/-- Computations that need some fuel to start may get one unit more. -/
theorem reaches_succ (start : x 0 = exhausted) : Reaches x s out ↔ Reaches (fun n => x (n + 1)) s out := by
  constructor
  · rintro ⟨done, fuel, rfl⟩
    cases fuel with
    | zero => exact absurd (congrFun start s) done
    | succ fuel => exact ⟨done, fuel, rfl⟩
  · rintro ⟨done, fuel, rfl⟩
    exact ⟨done, fuel + 1, rfl⟩

theorem reaches_const {x : Run σ ε α} : Reaches (fun _ => x) s out ↔ out ≠ .exhausted ∧ x s = out :=
  and_congr_right fun _ => exists_const Nat

theorem reaches_pure {a : α} : Reaches (fun _ => pure a) s out ↔ out = .value a s := by
  rw [reaches_const]
  constructor
  · rintro ⟨-, rfl⟩
    rfl
  · rintro rfl
    exact ⟨nofun, rfl⟩

/-- A sequence ends with the error of its first part, or as its second part does after the first. -/
theorem reaches_bind {f : Nat → α → Run σ ε β} {out : Outcome σ ε β} (hx : Stable x)
    (hf : ∀ a, Stable (f · a)) :
    Reaches (fun n => x n >>= f n) s out ↔
      (∃ a t, Reaches x s (.value a t) ∧ Reaches (f · a) t out) ∨
      ∃ e t, Reaches x s (.error e t) ∧ out = .error e t := by
  constructor
  · rintro ⟨done, fuel, reached⟩
    change (x fuel >>= f fuel) s = out at reached
    cases h : x fuel s with
    | value a t =>
        rw [bind_of_value h] at reached
        exact .inl ⟨a, t, ⟨nofun, fuel, h⟩, done, fuel, reached⟩
    | error e t =>
        rw [bind_of_error h] at reached
        exact .inr ⟨e, t, ⟨nofun, fuel, h⟩, reached.symm⟩
    | exhausted =>
        rw [bind_of_exhausted h] at reached
        exact absurd reached.symm done
  · rintro (⟨a, t, first, second⟩ | ⟨e, t, first, rfl⟩)
    · refine .of_eventually second.1 ?_
      filter_upwards [first.eventually hx, second.eventually (hf a)] with n h reached
      rw [bind_of_value h, reached]
    · obtain ⟨-, fuel, h⟩ := first
      exact ⟨nofun, fuel, bind_of_error h⟩

/-- After a first part with a known value, a sequence ends as its second part does. -/
theorem reaches_bind_of_value {f : Nat → α → Run σ ε β} {out : Outcome σ ε β} (hx : Stable x) {a : α}
    {t : σ} (hf : Stable (f · a)) (first : Reaches x s (.value a t)) :
    Reaches (fun n => x n >>= f n) s out ↔ Reaches (f · a) t out := by
  constructor
  · rintro ⟨done, fuel, reached⟩
    change (x fuel >>= f fuel) s = out at reached
    have ended : x fuel s ≠ .exhausted := fun lacking =>
      done (reached.symm.trans (bind_of_exhausted lacking))
    have value := Reaches.unique hx ⟨ended, fuel, rfl⟩ first
    rw [bind_of_value value] at reached
    exact ⟨done, fuel, reached⟩
  · intro second
    refine .of_eventually second.1 ?_
    filter_upwards [first.eventually hx, second.eventually hf] with n h reached
    rw [bind_of_value h, reached]

/-- What follows a computation matters only through where it ends. -/
theorem reaches_bind_congr {f g : Nat → α → Run σ ε β} {out : Outcome σ ε β} (hx : Stable x)
    (hf : ∀ a, Stable (f · a)) (hg : ∀ a, Stable (g · a))
    (same : ∀ a t, Reaches (f · a) t out ↔ Reaches (g · a) t out) :
    Reaches (fun n => x n >>= f n) s out ↔ Reaches (fun n => x n >>= g n) s out := by
  rw [reaches_bind hx hf, reaches_bind hx hg]
  simp only [same]

theorem bind_pure_apply {x : Run σ ε α} (f : α → β) :
    (x >>= fun a => pure (f a)) s = (x s).map f := by
  rw [bind_apply]
  cases x s <;> rfl

theorem reaches_map {f : α → β} {out : Outcome σ ε β} :
    Reaches (fun n => x n >>= fun a => pure (f a)) s out ↔ ∃ first, Reaches x s first ∧ first.map f = out := by
  unfold Reaches
  simp only [bind_pure_apply]
  exact Outcome.converges_map

/-- A family that ends as another one does, on the way out of it. -/
theorem reaches_exit {leave : σ → σ} {mark : σ → ε → ε} {t : σ}
    (same : ∀ n, y n s = (x n t).exit leave mark) :
    Reaches y s out ↔ ∃ inside, Reaches x t inside ∧ out = inside.exit leave mark := by
  constructor
  · rintro ⟨done, fuel, rfl⟩
    rw [same] at done ⊢
    exact ⟨x fuel t, ⟨mt Outcome.exit_eq_exhausted.2 done, fuel, rfl⟩, rfl⟩
  · rintro ⟨inside, ⟨done, fuel, rfl⟩, rfl⟩
    exact ⟨mt Outcome.exit_eq_exhausted.1 done, fuel, same fuel⟩

end Run

/-! ### Items one after another -/

section Items

variable {ι γ δ : Type}

/-- All items are passed in order, each with a result. -/
inductive Passes (pass : ι → σ → γ → σ → Prop) : σ → List ι → List γ → σ → Prop
  | nil {s : σ} : Passes pass s [] [] s
  | cons {s t u : σ} {item : ι} {rest : List ι} {g : γ} {gs : List γ} :
      pass item s g t → Passes pass t rest gs u → Passes pass s (item :: rest) (g :: gs) u

/-- The computation goes through items. After each of them it goes on with the result of the item
accumulated, or it is over; after the last one it is done with what is accumulated. -/
structure GoesThrough (run : List ι → β → σ → δ → Prop) (pass : ι → σ → γ → σ → Prop)
    (next : β → γ → β) (halt : ι → σ → δ → Prop) (done : β → σ → δ) : Prop where
  nil : ∀ acc s out, run [] acc s out ↔ out = done acc s
  cons : ∀ item rest acc s out, run (item :: rest) acc s out ↔
    (∃ g t, pass item s g t ∧ run rest (next acc g) t out) ∨ halt item s out
  unique : ∀ item s g t g' t', pass item s g t → pass item s g' t' → g = g' ∧ t = t'
  exclusive : ∀ item s g t out, pass item s g t → ¬halt item s out

namespace GoesThrough

variable {run : List ι → β → σ → δ → Prop} {pass : ι → σ → γ → σ → Prop} {next : β → γ → β}
  {halt : ι → σ → δ → Prop} {done : β → σ → δ}

/-- It is done after all items, or over with the first one that it does not pass. -/
theorem ends (S : GoesThrough run pass next halt done) (items : List ι) (acc : β) (s : σ) (out : δ) :
    run items acc s out ↔
      (∃ gs t, Passes pass s items gs t ∧ out = done (gs.foldl next acc) t) ∨
      ∃ before item after gs t, items = before ++ item :: after ∧ Passes pass s before gs t ∧
        halt item t out := by
  induction items generalizing acc s with
  | nil =>
      rw [S.nil]
      constructor
      · exact fun ended => .inl ⟨[], s, .nil, ended⟩
      · rintro (⟨gs, t, passes, ended⟩ | ⟨before, item, after, gs, t, split, -⟩)
        · cases passes
          exact ended
        · simp at split
  | cons first rest ih =>
      rw [S.cons]
      constructor
      · rintro (⟨g, t, passed, goes⟩ | ended)
        · rcases (ih (next acc g) t).1 goes with
            ⟨gs, u, passes, ended⟩ | ⟨before, item, after, gs, u, rfl, passes, ended⟩
          · exact .inl ⟨g :: gs, u, .cons passed passes, ended⟩
          · exact .inr ⟨first :: before, item, after, g :: gs, u, rfl, .cons passed passes, ended⟩
        · exact .inr ⟨[], first, rest, [], s, rfl, .nil, ended⟩
      · rintro (⟨gs, u, passes, ended⟩ | ⟨before, item, after, gs, u, split, passes, ended⟩)
        · cases passes with
          | cons passed passes => exact .inl ⟨_, _, passed, (ih _ _).2 (.inl ⟨_, u, passes, ended⟩)⟩
        · cases passes with
          | nil =>
              obtain ⟨rfl, rfl⟩ := List.cons.inj split
              exact .inr ended
          | cons passed passes =>
              obtain ⟨rfl, rfl⟩ := List.cons.inj split
              exact .inl ⟨_, _, passed, (ih _ _).2 (.inr ⟨_, item, after, _, u, rfl, passes, ended⟩)⟩

/-- Once all items are passed, it is done with what is accumulated and ends in no other way. -/
theorem ends_of_passes (S : GoesThrough run pass next halt done) {items : List ι} {gs : List γ}
    {s t : σ} (h : Passes pass s items gs t) (acc : β) (out : δ) :
    run items acc s out ↔ out = done (gs.foldl next acc) t := by
  induction h generalizing acc with
  | nil => exact S.nil acc _ out
  | cons passed _ ih =>
      rw [S.cons, List.foldl_cons, ← ih (next acc _)]
      constructor
      · rintro (⟨g, t, passed', goes⟩ | ended)
        · obtain ⟨rfl, rfl⟩ := S.unique _ _ _ _ _ _ passed passed'
          exact goes
        · exact absurd ended (S.exclusive _ _ _ _ out passed)
      · exact fun goes => .inl ⟨_, _, passed, goes⟩

/-- It does not end if and only if it comes to an item that it neither passes nor is over with. -/
theorem stuck (S : GoesThrough run pass next halt done) (items : List ι) (acc : β) (s : σ) :
    (∀ out, ¬run items acc s out) ↔
      ∃ before item after gs t, items = before ++ item :: after ∧ Passes pass s before gs t ∧
        (∀ g u, ¬pass item t g u) ∧ ∀ out, ¬halt item t out := by
  induction items generalizing acc s with
  | nil =>
      constructor
      · exact fun stuck => absurd ((S.nil acc s _).2 rfl) (stuck _)
      · rintro ⟨before, item, after, gs, t, split, -⟩
        simp at split
  | cons first rest ih =>
      simp only [S.cons, not_or, not_exists, not_and]
      constructor
      · intro stuck
        by_cases passed : ∃ g t, pass first s g t
        · obtain ⟨g, t, passed⟩ := passed
          obtain ⟨before, item, after, gs, u, rfl, passes, neither⟩ :=
            (ih (next acc g) t).1 fun out => (stuck out).1 g t passed
          exact ⟨first :: before, item, after, g :: gs, u, rfl, .cons passed passes, neither⟩
        · exact ⟨[], first, rest, [], s, rfl, .nil, fun g u h => passed ⟨g, u, h⟩,
            fun out => (stuck out).2⟩
      · rintro ⟨before, item, after, gs, u, split, passes, notPassed, notHalt⟩ out
        cases passes with
        | nil =>
            obtain ⟨rfl, rfl⟩ := List.cons.inj split
            exact ⟨fun g t passed => absurd passed (notPassed g t), notHalt out⟩
        | @cons _ t _ _ before g gs passed passes =>
            obtain ⟨rfl, rfl⟩ := List.cons.inj split
            refine ⟨fun g' t' passed' => ?_, S.exclusive _ _ _ _ out passed⟩
            obtain ⟨rfl, rfl⟩ := S.unique _ _ _ _ _ _ passed passed'
            exact (ih (next acc g) t).2
              ⟨before, item, after, gs, u, rfl, passes, notPassed, notHalt⟩ out

end GoesThrough

end Items

/-! ### Evaluations -/

variable {ν : Type} [DecidableEq ν]

/-- The expression evaluates to this outcome. -/
def Evaluates (cx : Context ν) (e : Expr ν) : State ν → Outcome (State ν) EvalError Value → Prop :=
  Run.Reaches (eval cx · e)

/-- A list of statements runs as a body and ends in this way. -/
def BodyEnds (cx : Context ν) (stmts : List (Expr ν)) :
    State ν → Outcome (State ν) EvalError BodyResult → Prop :=
  Run.Reaches fun fuel => Eval.body (eval cx fuel) stmts .nil

theorem stable_eval (cx : Context ν) (e : Expr ν) : Run.Stable (eval cx · e) :=
  fun _ _ le => eval_stable cx le e

theorem stable_body (cx : Context ν) (stmts : List (Expr ν)) (last : Value) :
    Run.Stable fun n => Eval.body (eval cx n) stmts last := fun _ _ le =>
  (Congruence.fuel cx).evalBody le stmts last (i := ()) (Scoping.free_admits _ _)

/-- An evaluation ends as its first step does. -/
theorem evaluates_step {cx : Context ν} {e : Expr ν} {s : State ν}
    {out : Outcome (State ν) EvalError Value} :
    Evaluates cx e s out ↔ Run.Reaches (fun n => Eval.step cx (eval cx n) n e) s out :=
  Run.reaches_succ rfl

end MiniLisp
