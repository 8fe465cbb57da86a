import MiniLisp.Proofs.Convergence
import MiniLisp.Proofs.Footprint

/-!
Counted loops. A loop over a range, like one that repeats a given number of times, runs its body once
for each number of a list that is known before the first round (`forRange_eq_each`, `times_eq_each`).
So whatever the body does, the rounds are those of the range in order, up to the first that returns or
fails, and each starts in the scope of the loop where the round before has left it
(`Eval.loops_count`). If none does, a loop over a range yields `NIL`, but for a range that ends with the
largest integer, where the counter has no next value (`Eval.loopFor_completes`).
-/

open Filter

namespace MiniLisp

variable {ν : Type}

/-- The integers from one to another, in order. -/
def counters (a b : Int64) : List Int64 :=
  (List.range (b.toInt - a.toInt + 1).toNat).map fun i : Nat => Int64.ofInt (a.toInt + i)

section Counters

variable {a b m : Int64}

/-- No counter wraps. -/
theorem map_toInt_counters (a b : Int64) :
    (counters a b).map Int64.toInt =
      (List.range (b.toInt - a.toInt + 1).toNat).map fun i : Nat => a.toInt + i := by
  rw [counters, List.map_map]
  refine List.map_congr_left fun i mem => ?_
  have least := a.le_toInt
  have greatest := b.toInt_lt
  rw [List.mem_range] at mem
  exact Int64.toInt_ofInt_of_le (by omega) (by omega)

theorem counters_of_lt (h : b.toInt < a.toInt) : counters a b = [] := by
  rw [counters, Int.toNat_of_nonpos (by omega), List.range_zero, List.map_nil]

theorem counters_of_le (h : a.toInt ≤ b.toInt) (next : m.toInt = a.toInt + 1) :
    counters a b = a :: counters m b := by
  have length : (b.toInt - a.toInt + 1).toNat = (b.toInt - m.toInt + 1).toNat + 1 := by omega
  rw [counters, length, List.range_succ_eq_map, List.map_cons, List.map_map, counters]
  congr 1
  · rw [Int.natCast_zero, Int.add_zero, Int64.ofInt_toInt]
  · refine List.map_congr_left fun i _ => congrArg Int64.ofInt ?_
    rw [next]
    omega

theorem counters_self (a : Int64) : counters a a = [a] := by
  rw [counters, Int.sub_self]
  simp

end Counters

namespace Number

variable {a b : Int64}

theorem le_int : (int a).le (int b) = true ↔ a.toInt ≤ b.toInt := by
  simp only [le, compare, Int64.lt_iff_toInt_lt]
  split
  · next lt => simp [lt.le]
  · split
    · next gt => simpa using gt
    · next ge => simpa using Int.not_lt.1 ge

theorem increment_int_of_lt (h : a.toInt < b.toInt) :
    ∃ m, (int a).increment = .ok (int m) ∧ m.toInt = a.toInt + 1 := by
  have room : Word.InRange (a.toInt + 1) := by
    have above := a.le_toInt
    have below := b.toInt_lt
    exact ⟨by omega, by omega⟩
  refine ⟨Int64.ofInt (a.toInt + 1), ?_, Word.ofInt?_eq_some_iff.1 (if_pos room)⟩
  have moved : Word.add? a 1 = some (Int64.ofInt (a.toInt + 1)) := if_pos room
  rw [increment, moved]

theorem increment_maxValue :
    (int Int64.maxValue).increment = .error (.integerOverflow "increment") := by
  have full : Word.add? Int64.maxValue 1 = none := by decide
  rw [increment, full]

end Number

namespace Eval

/-- How a loop goes on after a round. -/
def andThen (rest : Eval ν Value) : BodyResult → Eval ν Value
  | .returned v => pure v
  | .completed _ => rest

/-- How a loop over a range ends after all rounds: there is no counter after the largest integer. -/
def finish (cx : Context ν) (last : Int64) : Eval ν Value :=
  if last = Int64.maxValue then fail cx (.integerOverflow "increment") else pure .nil

theorem finish_ne_exhausted (cx : Context ν) (last : Int64) (s : State ν) :
    finish cx last s ≠ .exhausted := by
  unfold finish
  split <;> nofun

variable [DecidableEq ν]

/-- Runs a body once for each number, with the variable bound to it, until the body returns. -/
def each (x : ν) (body : Eval ν BodyResult) (finish : Eval ν Value) : List Int64 → Eval ν Value
  | [] => finish
  | n :: rest => define x (.int n) >>= fun _ => body >>= andThen (each x body finish rest)

variable (cx : Context ν) (x : ν) (body : Eval ν BodyResult)

theorem forRange_succ (last : Number) (budget : Nat) (counter : Number) :
    forRange cx x last body (budget + 1) counter =
      if counter.le last then
        define x (.number counter) >>= fun _ => body >>= andThen
          (ofExcept cx counter.increment >>= forRange cx x last body budget)
      else pure .nil := by
  rw [forRange]
  refine if_congr Iff.rfl (congrArg (define x (.number counter) >>= ·) (funext fun _ => ?_)) rfl
  refine congrArg (body >>= ·) (funext fun result => ?_)
  cases result <;> rfl

theorem forRange_of_lt {a b : Int64} (h : b.toInt < a.toInt) (budget : Nat) :
    forRange cx x (.int b) body (budget + 1) (.int a) = pure .nil := by
  rw [forRange_succ, if_neg (mt Number.le_int.1 (Int.not_le.2 h))]

/-- After the round of the last number, the counter moves on and the loop is over. -/
theorem increment_forRange (b : Int64) (budget : Nat) :
    ofExcept cx (Number.int b).increment >>= forRange cx x (.int b) body (budget + 1) = finish cx b := by
  by_cases full : b = Int64.maxValue
  · rw [full, Number.increment_maxValue, finish, if_pos rfl]
    rfl
  · have room : b.toInt < Int64.maxValue.toInt := by
      refine lt_of_le_of_ne ?_ fun same => full (Int64.toInt_inj.1 same)
      have bound := b.toInt_lt
      rw [Int64.toInt_maxValue]
      omega
    obtain ⟨m, moved, next⟩ := Number.increment_int_of_lt room
    rw [moved, finish, if_neg full]
    exact forRange_of_lt cx x body (by omega) budget

/-- With fuel for all rounds, a loop over a range runs its body for each counter. -/
theorem forRange_eq_each {a b : Int64} {budget : Nat} (enough : (counters a b).length < budget) :
    forRange cx x (.int b) body budget (.int a) = each x body (finish cx b) (counters a b) := by
  induction budget generalizing a with
  | zero => cases enough
  | succ budget ih =>
      rcases lt_trichotomy a.toInt b.toInt with lt | eq | gt
      · obtain ⟨m, moved, next⟩ := Number.increment_int_of_lt lt
        rw [counters_of_le lt.le next] at enough ⊢
        rw [forRange_succ, if_pos (Number.le_int.2 lt.le), moved, each,
          ← ih (Nat.lt_of_succ_lt_succ enough)]
        rfl
      · -- The last round: the counter moves past the end, or there is no next one.
        obtain rfl := Int64.toInt_inj.1 eq
        rw [counters_self] at enough ⊢
        have left := Nat.ne_zero_of_lt (Nat.lt_of_succ_lt_succ enough)
        obtain ⟨budget, rfl⟩ := Nat.exists_eq_succ_of_ne_zero left
        rw [forRange_succ, if_pos (Number.le_int.2 le_rfl), increment_forRange, each, each]
      · have below : b ≠ Int64.maxValue := by
          rintro rfl
          have bound := a.toInt_lt
          rw [Int64.toInt_maxValue] at gt
          omega
        rw [counters_of_lt gt, forRange_of_lt cx x body gt, each, finish, if_neg below]

theorem times_eq_each (left done : Nat) :
    times x body left done =
      each x body (pure .nil) ((List.range left).map fun i => Int64.ofNat (done + i)) := by
  induction left generalizing done with
  | zero => rfl
  | succ left ih =>
      have later : (fun i => Int64.ofNat (done + i)) ∘ Nat.succ =
          fun i => Int64.ofNat (done + 1 + i) := by
        funext i
        exact congrArg Int64.ofNat (by omega)
      rw [times, List.range_succ_eq_map, List.map_cons, List.map_map, later, each, Nat.add_zero]
      refine congrArg (define x _ >>= ·) (funext fun _ => ?_)
      refine congrArg (body >>= ·) (funext fun result => ?_)
      cases result with
      | returned v => rfl
      | completed v => exact ih (done + 1)

/-- A given number of rounds is a round for each integer from zero to the one before. -/
theorem times_eq_counters {n : Int64} (h : Int64.minValue < n) :
    times x body n.toInt.toNat 0 = each x body (finish cx (n - 1)) (counters 0 (n - 1)) := by
  rw [Int64.lt_iff_toInt_lt, Int64.toInt_minValue] at h
  have bound := n.toInt_lt
  have before : (n - 1).toInt = n.toInt - 1 := by
    rw [Int64.toInt_sub, Int64.toInt_one, Int.bmod_eq_of_le (by omega) (by omega)]
  have small : n - 1 ≠ Int64.maxValue := by
    intro full
    rw [full, Int64.toInt_maxValue] at before
    omega
  have numbers : counters 0 (n - 1) =
      (List.range n.toInt.toNat).map fun i => Int64.ofNat (0 + i) := by
    rw [counters, before, Int64.toInt_zero, Int.sub_zero, Int.sub_add_cancel]
    refine List.map_congr_left fun i _ => ?_
    rw [Int.zero_add, Nat.zero_add, Int64.ofInt_eq_ofNat]
  rw [numbers, finish, if_neg small]
  exact times_eq_each x body _ 0

end Eval

/-! ### Rounds -/

variable [DecidableEq ν]

/-- The state with a name bound in the current scope. -/
def State.define (s : State ν) (x : ν) (v : Value) : State ν :=
  { s with scopes := s.scopes.define x v }

section Rounds

variable (cx : Context ν) (x : ν) (stmts : List (Expr ν))

/-- The body runs with the variable set to the number, and completes. -/
def Round (n : Int64) (s : State ν) (v : Value) (t : State ν) : Prop :=
  BodyEnds cx stmts (s.define x (.int n)) (.value (.completed v) t)

/-- The body runs with the variable set to the number, and returns or fails. -/
inductive Cut (n : Int64) (s : State ν) : Outcome (State ν) EvalError Value → Prop
  | returned {v : Value} {t : State ν} :
      BodyEnds cx stmts (s.define x (.int n)) (.value (.returned v) t) → Cut n s (.value v t)
  | failed {e : EvalError} {t : State ν} :
      BodyEnds cx stmts (s.define x (.int n)) (.error e t) → Cut n s (.error e t)

/-- The rounds of a loop over some numbers, with each amount of fuel. -/
def rounds (finish : Eval ν Value) (numbers : List Int64) (fuel : Nat) : Eval ν Value :=
  Eval.each x (Eval.body (eval cx fuel) stmts .nil) finish numbers

variable {cx x stmts}

omit [DecidableEq ν] in
theorem stable_andThen {rest : Nat → Eval ν Value} (h : Run.Stable rest) (result : BodyResult) :
    Run.Stable fun fuel => Eval.andThen (rest fuel) result := by
  cases result with
  | returned v => exact .const _
  | completed v => exact h

theorem stable_rounds (cx : Context ν) (x : ν) (stmts : List (Expr ν)) (finish : Eval ν Value)
    (numbers : List Int64) : Run.Stable (rounds cx x stmts finish numbers) := by
  induction numbers with
  | nil => exact .const finish
  | cons n rest ih =>
      exact .bind (.const _) fun _ => .bind (stable_body cx stmts .nil) (stable_andThen ih)

/-- A loop runs its first round and then, unless the round cuts it, the others. -/
theorem reaches_rounds_cons (finish : Eval ν Value) {n : Int64} {rest : List Int64} {s : State ν}
    {out : Outcome (State ν) EvalError Value} :
    Run.Reaches (rounds cx x stmts finish (n :: rest)) s out ↔
      (∃ v t, Round cx x stmts n s v t ∧ Run.Reaches (rounds cx x stmts finish rest) t out) ∨
      Cut cx x stmts n s out := by
  have others := stable_andThen (stable_rounds cx x stmts finish rest)
  have stable := stable_body cx stmts .nil
  have bound : Run.Reaches (fun _ => Eval.define x (.int n)) s (.value () (s.define x (.int n))) :=
    ⟨nofun, 0, rfl⟩
  refine Iff.trans (Run.reaches_bind_of_value (.const _) (.bind stable others) bound) ?_
  refine Iff.trans (Run.reaches_bind stable others) ?_
  constructor
  · rintro (⟨r, t, ran, goes⟩ | ⟨e, t, failed, rfl⟩)
    · cases r with
      | returned v =>
          cases Run.reaches_pure.1 goes
          exact .inr (.returned ran)
      | completed v => exact .inl ⟨v, t, ran, goes⟩
    · exact .inr (.failed failed)
  · rintro (⟨v, t, round, goes⟩ | cut)
    · exact .inl ⟨_, t, round, goes⟩
    · cases cut with
      | returned ran => exact .inl ⟨_, _, ran, Run.reaches_pure.2 rfl⟩
      | failed failed => exact .inr ⟨_, _, failed, rfl⟩

/-- A body that ends completes a round or cuts the loop. -/
theorem round_or_cut {n : Int64} {s : State ν} {out : Outcome (State ν) EvalError BodyResult}
    (h : BodyEnds cx stmts (s.define x (.int n)) out) :
    (∃ v t, Round cx x stmts n s v t) ∨ ∃ ended, Cut cx x stmts n s ended := by
  match out with
  | .value (.returned v) t => exact .inr ⟨_, .returned h⟩
  | .value (.completed v) t => exact .inl ⟨v, t, h⟩
  | .error e t => exact .inr ⟨_, .failed h⟩
  | .exhausted => exact absurd rfl h.1

theorem not_bodyEnds_iff {n : Int64} {s : State ν} :
    (∀ out, ¬BodyEnds cx stmts (s.define x (.int n)) out) ↔
      (∀ v t, ¬Round cx x stmts n s v t) ∧ ∀ ended, ¬Cut cx x stmts n s ended := by
  constructor
  · refine fun stuck => ⟨fun v t => stuck _, fun ended cut => ?_⟩
    cases cut with
    | returned ran => exact stuck _ ran
    | failed failed => exact stuck _ failed
  · rintro ⟨notRound, notCut⟩ out ends
    rcases round_or_cut ends with ⟨v, t, round⟩ | ⟨ended, cut⟩
    · exact notRound v t round
    · exact notCut ended cut

theorem rounds_goesThrough (cx : Context ν) (x : ν) (stmts : List (Expr ν)) (b : Int64) :
    GoesThrough (fun numbers (_ : Unit) => Run.Reaches (rounds cx x stmts (Eval.finish cx b) numbers))
      (Round cx x stmts) (fun _ _ => ()) (Cut cx x stmts) fun _ s => Eval.finish cx b s where
  nil _ s out := by
    refine Run.reaches_const.trans ⟨fun h => h.2.symm, ?_⟩
    rintro rfl
    exact ⟨Eval.finish_ne_exhausted cx b s, rfl⟩
  cons _ _ _ _ _ := reaches_rounds_cons _
  unique _ _ _ _ _ _ h h' := by
    cases h.unique (stable_body cx stmts .nil) h'
    exact ⟨rfl, rfl⟩
  exclusive _ _ _ _ _ h cut := by
    cases cut with
    | returned ran => cases h.unique (stable_body cx stmts .nil) ran
    | failed failed => cases h.unique (stable_body cx stmts .nil) failed

end Rounds

/-! ### Loops -/

/-- The state in a new scope below the current one. -/
def State.enter (s : State ν) : State ν := { s with scopes := s.scopes.enter }

/-- The state when the current scope is left. -/
def State.leave (s : State ν) : State ν := { s with scopes := s.scopes.leave }

section Loops

variable {cx : Context ν} {x : ν} {stmts : List (Expr ν)} {s s₁ s₂ : State ν}
  {out : Outcome (State ν) EvalError Value}

theorem stable_forRange (cx : Context ν) (x : ν) (stmts : List (Expr ν)) (last start : Number) :
    Run.Stable fun fuel =>
      Eval.forRange cx x last (Eval.body (eval cx fuel) stmts .nil) fuel start := fun n m le =>
  (Congruence.fuel cx).logical.forRange (i := ()) (stable_body cx stmts .nil n m le)
    (fun _ _ _ _ => rfl) last le trivial

theorem stable_times (cx : Context ν) (x : ν) (stmts : List (Expr ν)) (left done : Nat) :
    Run.Stable fun fuel => Eval.times x (Eval.body (eval cx fuel) stmts .nil) left done :=
  fun n m le => (Congruence.fuel cx).logical.times (i := ()) (stable_body cx stmts .nil n m le)
    (fun _ _ _ _ => rfl) left done

omit [DecidableEq ν] in
theorem stable_inNewScope {α : Type} {y : Nat → Eval ν α} (h : Run.Stable y) :
    Run.Stable fun fuel => Eval.inNewScope (y fuel) := fun n m le => (h n m le).inNewScope

/-- A loop over a range whose ends are integers runs its body for each counter, in a new scope. -/
theorem evaluates_loopFor {first last : Expr ν} {a b : Int64}
    (h : Evaluates cx first s (.value (.int a) s₁)) (h' : Evaluates cx last s₁ (.value (.int b) s₂)) :
    Evaluates cx (.loopFor x first last stmts) s out ↔
      ∃ ended, Run.Reaches (rounds cx x stmts (Eval.finish cx b) (counters a b)) s₂.enter ended ∧
        out = ended.exit State.leave fun _ e => e := by
  have stable (first last : Number) := stable_inNewScope (stable_forRange cx x stmts last first)
  rw [evaluates_step]
  refine Iff.trans (Run.reaches_bind_of_value (stable_eval cx first) (.bind (stable_eval cx last)
    fun _ => .bind (.const _) fun _ => .bind (.const _) fun _ => stable _ _) h) ?_
  refine Iff.trans (Run.reaches_bind_of_value (stable_eval cx last)
    (.bind (.const _) fun _ => .bind (.const _) fun _ => stable _ _) h') ?_
  change Run.Reaches (fun fuel => Eval.inNewScope
    (Eval.forRange cx x (.int b) (Eval.body (eval cx fuel) stmts .nil) fuel (.int a))) s₂ out ↔ _
  refine Iff.trans (Run.reaches_exit fun fuel => Eval.inNewScope_apply _ s₂) ?_
  refine exists_congr fun ended => and_congr_left fun _ => ?_
  refine Run.reaches_congr (stable_forRange cx x stmts _ _) (stable_rounds cx x stmts _ _) ?_
  filter_upwards [eventually_gt_atTop (counters a b).length] with fuel enough
  rw [Eval.forRange_eq_each cx x _ enough, rounds]

/-- Once all rounds have completed, the loop finishes and leaves its scope. -/
theorem evaluates_loopFor_of_passes {first last : Expr ν} {a b : Int64} {vs : List Value} {t : State ν}
    (h : Evaluates cx first s (.value (.int a) s₁)) (h' : Evaluates cx last s₁ (.value (.int b) s₂))
    (completed : Passes (Round cx x stmts) s₂.enter (counters a b) vs t) :
    Evaluates cx (.loopFor x first last stmts) s out ↔
      out = (Eval.finish cx b t).exit State.leave fun _ e => e := by
  have ends := (rounds_goesThrough cx x stmts b).ends_of_passes completed ()
  rw [evaluates_loopFor h h']
  constructor
  · rintro ⟨ended, reached, rfl⟩
    rw [(ends ended).1 reached]
  · rintro rfl
    exact ⟨_, (ends _).2 rfl, rfl⟩

/-- A loop with a given number of rounds runs its body for each integer below that, in a new scope. -/
theorem evaluates_dotimes {count : Expr ν} {n : Int64} (least : Int64.minValue < n)
    (h : Evaluates cx count s (.value (.int n) s₁)) :
    Evaluates cx (.dotimes x count stmts) s out ↔
      ∃ ended, Run.Reaches (rounds cx x stmts (Eval.finish cx (n - 1)) (counters 0 (n - 1)))
        s₁.enter ended ∧
        out = ended.exit State.leave fun _ e => e := by
  rw [evaluates_step]
  refine Iff.trans (Run.reaches_bind_of_value (stable_eval cx count)
    (.bind (.const _) fun _ => stable_inNewScope (stable_times cx x stmts _ 0)) h) ?_
  change Run.Reaches (fun fuel => Eval.inNewScope
    (Eval.times x (Eval.body (eval cx fuel) stmts .nil) n.toInt.toNat 0)) s₁ out ↔ _
  refine Iff.trans (Run.reaches_exit fun fuel => Eval.inNewScope_apply _ s₁) ?_
  simp only [Eval.times_eq_counters cx x _ least]
  rfl

theorem evaluates_literal (cx : Context ν) (value : Scalar) (s : State ν) :
    Evaluates cx (.literal value) s (.value (.scalar value) s) :=
  evaluates_step.2 (Run.reaches_pure.2 rfl)

end Loops

/-! ### The scope of a loop -/

/-- The current scope is not the root, and later it is the same scope with the names it had. -/
inductive Chain.Grows : Chain ν → Chain ν → Prop
  | child {b b' : Bindings ν} {outer outer' : Chain ν} : outer'.depth = outer.depth →
      (∀ y, b.contains y → b'.contains y) → Grows (.child b outer) (.child b' outer')

namespace Chain.Grows

variable {c c' c'' : Chain ν}

theorem refl (b : Bindings ν) (outer : Chain ν) : Grows (.child b outer) (.child b outer) :=
  .child rfl fun _ => id

theorem trans (h : Grows c c') (h' : Grows c' c'') : Grows c c'' := by
  cases h with
  | child depth kept =>
      cases h' with
      | child depth' kept' => exact .child (depth'.trans depth) fun y mem => kept' y (kept y mem)

theorem right (h : Grows c c') : Grows c' c' := by
  cases h with
  | child _ _ => exact .refl _ _

theorem define (h : Grows c c) (x : ν) (v : Value) : Grows c (c.define x v) := by
  cases h with
  | @child b _ _ _ _ _ =>
      refine .child rfl fun y mem => ?_
      unfold Dictionary.contains at mem ⊢
      rw [Dictionary.get?_set]
      split
      · rfl
      · exact mem

theorem of_moves {shared own fresh : ν → Prop} (h : Grows c c) (moves : Moves shared own fresh c c') :
    Grows c c' := by
  cases h with
  | child _ _ =>
      cases moves with
      | child hb houter =>
          refine .child houter.depth_eq fun y mem => ?_
          rcases hb y with same | ⟨bound, -⟩
          · rwa [Dictionary.contains, same]
          · exact bound

end Chain.Grows

theorem Round.grows {cx : Context ν} {x : ν} {stmts : List (Expr ν)} {n : Int64} {s t : State ν}
    {v : Value} (h : Round cx x stmts n s v t) (start : s.scopes.Grows s.scopes) :
    s.scopes.Grows t.scopes := by
  obtain ⟨-, fuel, ran⟩ := h
  have moves : State.Moves cx.functions ⟨fun _ => True, fun _ => True⟩ (s.define x (.int n)) t :=
    (Congruence.footprint cx).evalBody (Nat.le_refl fuel) stmts .nil
      (i := ⟨fun _ => True, fun _ => True⟩) ⟨fun _ _ => trivial, fun _ _ => trivial⟩ _ _
      (congrArg Outcome.after? ran)
  have bound := start.define x (.int n)
  exact bound.trans (bound.right.of_moves moves)

theorem Passes.grows {cx : Context ν} {x : ν} {stmts : List (Expr ν)} {ns : List Int64}
    {vs : List Value} {s t : State ν} (h : Passes (Round cx x stmts) s ns vs t)
    (start : s.scopes.Grows s.scopes) : s.scopes.Grows t.scopes := by
  induction h with
  | nil => exact start
  | cons round _ ih =>
      have first := round.grows start
      exact first.trans (ih first.right)

namespace Eval

/-- Whatever its body does, a loop over a range of integers enters one scope and runs its rounds there:
those of all counters in order, or up to the first whose body returns or fails; each starts where the
one before has ended, with the variable set anew. A loop with a number of rounds that is not the least
integer is the loop from zero to the integer before that number. -/
theorem loops_count (cx : Context ν) (x : ν) (stmts : List (Expr ν)) (s : State ν) :
    (∀ first last a b s₁ s₂, Evaluates cx first s (.value (.int a) s₁) →
      Evaluates cx last s₁ (.value (.int b) s₂) →
      (∀ out, Evaluates cx (.loopFor x first last stmts) s out ↔
        ∃ ended, out = ended.exit State.leave (fun _ e => e) ∧
          ((∃ vs t, Passes (Round cx x stmts) s₂.enter (counters a b) vs t ∧ ended = finish cx b t) ∨
          ∃ before n after vs t, counters a b = before ++ n :: after ∧
            Passes (Round cx x stmts) s₂.enter before vs t ∧ Cut cx x stmts n t ended)) ∧
      ((∀ out, ¬Evaluates cx (.loopFor x first last stmts) s out) ↔
        ∃ before n after vs t, counters a b = before ++ n :: after ∧
          Passes (Round cx x stmts) s₂.enter before vs t ∧
          ∀ out, ¬BodyEnds cx stmts (t.define x (.int n)) out) ∧
      ∀ before after vs ws t u, Passes (Round cx x stmts) s₂.enter before vs t →
        Passes (Round cx x stmts) t after ws u →
          s₂.enter.scopes.Grows t.scopes ∧ t.scopes.Grows u.scopes) ∧
    (∀ a b, (counters a b).map Int64.toInt =
      (List.range (b.toInt - a.toInt + 1).toNat).map fun i : Nat => a.toInt + i) ∧
    ∀ n, Int64.minValue < n → ∀ out,
      Evaluates cx (.dotimes x (.literal (.int n)) stmts) s out ↔
        Evaluates cx (.loopFor x (.literal (.int 0)) (.literal (.int (n - 1))) stmts) s out := by
  refine ⟨fun first last a b s₁ s₂ h h' => ⟨fun out => ?_, ?_, ?_⟩, map_toInt_counters,
    fun n least out => ?_⟩
  · rw [evaluates_loopFor h h']
    refine exists_congr fun ended => and_comm.trans (and_congr_right fun _ => ?_)
    exact (rounds_goesThrough cx x stmts b).ends (counters a b) () s₂.enter ended
  · have inside : (∀ out, ¬Evaluates cx (.loopFor x first last stmts) s out) ↔
        ∀ ended, ¬Run.Reaches (rounds cx x stmts (finish cx b) (counters a b)) s₂.enter ended := by
      simp only [evaluates_loopFor h h', not_exists, not_and]
      exact ⟨fun never ended ends => never _ ended ends rfl,
        fun never out ended ends => absurd ends (never ended)⟩
    rw [inside]
    refine ((rounds_goesThrough cx x stmts b).stuck (counters a b) () s₂.enter).trans ?_
    simp only [not_bodyEnds_iff]
  · intro before after vs ws t u passes passes'
    have entered : s₂.enter.scopes.Grows s₂.enter.scopes := .refl ∅ s₂.scopes
    have first := passes.grows entered
    exact ⟨first, passes'.grows first.right⟩
  · rw [evaluates_dotimes least (evaluates_literal cx (.int n) s),
      evaluates_loopFor (evaluates_literal cx (.int 0) s) (evaluates_literal cx (.int (n - 1)) s)]

/-- The body adds the variable to a sum and then overwrites the variable: the rounds are those for 0, 1
and 2 all the same, in either kind of loop. -/
theorem loops_count_overwritten :
    let cx : Context Nat := ⟨FunctionTable.new, toString, .onExit⟩
    let reached (counter sum : Int64) : State Nat :=
      ⟨.child ⟨[(0, .int counter)]⟩ (.root ⟨[(1, .int sum)]⟩), CallStack.new none, .silent⟩
    let s := (reached 0 0).leave
    let stmts := [.update (.move .up) 1 (.var 0), .bind .setq 0 (.literal (.int 100))]
    Passes (Round cx 0 stmts) s.enter (counters 0 2) [.int 100, .int 100, .int 100] (reached 100 3) ∧
    Evaluates cx (.loopFor 0 (.literal (.int 0)) (.literal (.int 2)) stmts) s
      (.value .nil (reached 100 3).leave) ∧
    Evaluates cx (.dotimes 0 (.literal (.int 3)) stmts) s (.value .nil (reached 100 3).leave) := by
  intro cx reached s stmts
  have first : Round cx 0 stmts 0 s.enter (.int 100) (reached 100 0) := ⟨nofun, 5, rfl⟩
  have second : Round cx 0 stmts 1 (reached 100 0) (.int 100) (reached 100 1) := ⟨nofun, 5, rfl⟩
  have third : Round cx 0 stmts 2 (reached 100 1) (.int 100) (reached 100 3) := ⟨nofun, 5, rfl⟩
  have passes : Passes (Round cx 0 stmts) s.enter (counters 0 2)
      [.int 100, .int 100, .int 100] (reached 100 3) := .cons first (.cons second (.cons third .nil))
  obtain ⟨range, -, repeated⟩ := loops_count cx 0 stmts s
  obtain ⟨ends, -, -⟩ := range _ _ 0 2 s s (evaluates_literal cx _ s) (evaluates_literal cx _ s)
  have counted := (ends _).2 ⟨_, rfl, .inl ⟨_, _, passes, rfl⟩⟩
  exact ⟨passes, counted, (repeated 3 (by decide) _).2 counted⟩

/-- If all rounds of a range of integers complete, the loop yields `NIL`; only if the range ends with the
largest integer it fails all the same, since the counter moves on once more before it is compared. -/
theorem loopFor_completes (cx : Context ν) (x : ν) (stmts : List (Expr ν)) {first last : Expr ν}
    {a b : Int64} {s s₁ s₂ t : State ν} {vs : List Value}
    (h : Evaluates cx first s (.value (.int a) s₁)) (h' : Evaluates cx last s₁ (.value (.int b) s₂))
    (completed : Passes (Round cx x stmts) s₂.enter (counters a b) vs t)
    (out : Outcome (State ν) EvalError Value) :
    Evaluates cx (.loopFor x first last stmts) s out ↔
      out = if b = Int64.maxValue then
          .error (cx.raise t.stack (.integerOverflow "increment")) t.leave
        else .value .nil t.leave := by
  rw [evaluates_loopFor_of_passes h h' completed]
  unfold finish
  split <;> exact Iff.rfl

/-- A state in which a loop has set its variable 0, and its body a number 1 of rounds in the root. -/
def counting (counter count : Int64) : State Nat :=
  ⟨.child ⟨[(0, .int counter)]⟩ (.root ⟨[(1, .int count)]⟩), CallStack.new none, .silent⟩

/-- A body that counts the rounds and overwrites the variable of its loop. -/
def countingBody : List (Expr Nat) :=
  [.update (.move .up) 1 (.literal (.int 1)), .bind .setq 0 (.literal (.int 100))]

/-- A loop over two integers whose last one has a next one. -/
theorem loopFor_completes_below_maxValue :
    let cx : Context Nat := ⟨FunctionTable.new, toString, .onExit⟩
    let s := (counting 0 0).leave
    let a := Int64.maxValue - 2
    let b := Int64.maxValue - 1
    Passes (Round cx 0 countingBody) s.enter (counters a b) [.int 100, .int 100] (counting 100 2) ∧
    b ≠ Int64.maxValue ∧
    Evaluates cx (.loopFor 0 (.literal (.int a)) (.literal (.int b)) countingBody) s
      (.value .nil (counting 100 2).leave) := by
  intro cx s a b
  have first : Round cx 0 countingBody a s.enter (.int 100) (counting 100 1) := ⟨nofun, 5, rfl⟩
  have second : Round cx 0 countingBody b (counting 100 1) (.int 100) (counting 100 2) :=
    ⟨nofun, 5, rfl⟩
  have range : counters a b = [a, b] := by decide +kernel
  have completed : Passes (Round cx 0 countingBody) s.enter (counters a b)
      [.int 100, .int 100] (counting 100 2) := range ▸ .cons first (.cons second .nil)
  have below : b ≠ Int64.maxValue := by decide
  have ends := loopFor_completes cx 0 countingBody (evaluates_literal cx (.int a) s)
    (evaluates_literal cx (.int b) s) completed
  exact ⟨completed, below, (ends _).2 (if_neg below).symm⟩

/-- Both rounds of a loop up to the largest integer complete, and then the loop fails. -/
theorem loopFor_fails_at_maxValue :
    let cx : Context Nat := ⟨FunctionTable.new, toString, .onExit⟩
    let s := (counting 0 0).leave
    let a := Int64.maxValue - 1
    let b := Int64.maxValue
    let loop : Expr Nat := .loopFor 0 (.literal (.int a)) (.literal (.int b)) countingBody
    Passes (Round cx 0 countingBody) s.enter (counters a b) [.int 100, .int 100] (counting 100 2) ∧
    Evaluates cx loop s (.error ⟨.integerOverflow "increment", none⟩ (counting 100 2).leave) ∧
    ¬Evaluates cx loop s (.value .nil (counting 100 2).leave) := by
  intro cx s a b loop
  have first : Round cx 0 countingBody a s.enter (.int 100) (counting 100 1) := ⟨nofun, 5, rfl⟩
  have second : Round cx 0 countingBody b (counting 100 1) (.int 100) (counting 100 2) :=
    ⟨nofun, 5, rfl⟩
  have range : counters a b = [a, b] := by decide +kernel
  have completed : Passes (Round cx 0 countingBody) s.enter (counters a b)
      [.int 100, .int 100] (counting 100 2) := range ▸ .cons first (.cons second .nil)
  have failed : Evaluates cx loop s
      (.error ⟨.integerOverflow "increment", none⟩ (counting 100 2).leave) :=
    (evaluates_loopFor_of_passes (evaluates_literal cx (.int a) s) (evaluates_literal cx (.int b) s)
      completed).2 rfl
  refine ⟨completed, failed, fun ended => ?_⟩
  cases ended.unique (stable_eval cx loop) failed

end Eval

end MiniLisp
