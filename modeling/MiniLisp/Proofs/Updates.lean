import MiniLisp.Proofs.Atomicity
import MiniLisp.Proofs.Places

/-!
Moving the integer at a place by a literal amount. The integer that is reached is written if it is in range
(`Interpreter.run_move`), and moving back by the same amount then writes the old integer again, so that
nothing is left of both moves (`Interpreter.run_move_opposite`). This is so for every amount: the way back
is the opposite form, not the opposite amount. Together with what all assigning forms have in common, this
is `Interpreter.assignments_atomic`.
-/

namespace MiniLisp

variable {ν : Type}

namespace Direction

/-- The integer that is reached, whether or not it is in the 64-bit range. -/
def reach : Direction → Int64 → Int64 → Int
  | up, n, amount => n.toInt + amount.toInt
  | down, n, amount => n.toInt - amount.toInt

def opposite : Direction → Direction
  | up => down
  | down => up

theorem move?_eq_some (direction : Direction) {n amount moved : Int64} :
    direction.move? n amount = some moved ↔ moved.toInt = direction.reach n amount := by
  cases direction <;> exact Word.ofInt?_eq_some_iff

theorem move?_eq_none (direction : Direction) {n amount : Int64} :
    direction.move? n amount = none ↔ ¬Word.InRange (direction.reach n amount) := by
  cases direction <;> exact Word.ofInt?_eq_none_iff

/-- There is always a way back, also where the amount has no negative. -/
theorem reach_opposite {direction : Direction} {n amount moved : Int64}
    (h : moved.toInt = direction.reach n amount) :
    n.toInt = direction.opposite.reach moved amount := by
  cases direction with
  | up =>
      simp only [reach, opposite] at h ⊢
      omega
  | down =>
      simp only [reach, opposite] at h ⊢
      omega

end Direction

/-- A variable, or its element at a literal index. -/
def Target.fixed (x : ν) : Option Scalar → Target ν
  | none => .var x
  | some s => .element x (.literal s)

/-- The place that such a target names in every state, if its index is an integer. -/
def Place.fixed? (x : ν) : Option Scalar → Option (Place ν)
  | none => some (.var x)
  | some s => s.int?.map (.element x)

/-- The form that moves the integer at a target by a literal amount. -/
def Target.move (target : Target ν) (direction : Direction) (amount : Int64) : Expr ν :=
  target.update (.move direction) (.literal (.int amount))

namespace Eval

variable [DecidableEq ν] {cx : Context ν} {direction : Direction} {place : Place ν}
  {n amount : Int64} {s : State ν}

theorem readPlace_of_ok {v : Value} (h : place.read cx.label s.scopes = .ok v) :
    readPlace cx place s = .value v s := by
  rw [readPlace, h]
  rfl

theorem readPlace_of_error {cause : Cause} (h : place.read cx.label s.scopes = .error cause) :
    readPlace cx place s = .error (cx.raise s.stack cause) s := by
  rw [readPlace, h]
  rfl

/-- An integer that is read is moved if there is room, and what is reached is written. -/
theorem update_move_int (read : place.read cx.label s.scopes = .ok (.int n)) :
    update cx (.move direction) place (.int amount) s =
      match direction.move? n amount with
      | some moved => writePlace cx place (.int moved) s
      | none =>
          .error (cx.raise s.stack (.integerOverflow (UpdateOp.move direction).symbol)) s := by
  rw [update, Run.bind_of_value (readPlace_of_ok read)]
  show (match direction.move? n amount with
    | some moved => writePlace cx place (.int moved)
    | none => fail cx (.integerOverflow (UpdateOp.move direction).symbol)) s = _
  cases direction.move? n amount <;> rfl

theorem update_move_fails
    (h : ∀ n, place.read cx.label s.scopes = .ok (.int n) → direction.move? n amount = none) :
    ∃ e, update cx (.move direction) place (.int amount) s = .error e s := by
  cases read : place.read cx.label s.scopes with
  | error cause => exact ⟨_, Run.bind_of_error (readPlace_of_error read)⟩
  | ok v =>
      cases integer : Operand.integer (UpdateOp.move direction).symbol v with
      | error cause =>
          refine ⟨cx.raise s.stack cause, ?_⟩
          rw [update, Run.bind_of_value (readPlace_of_ok read), integer]
          rfl
      | ok n =>
          obtain rfl := Operand.integer_eq_ok.1 integer
          rw [update_move_int read, h n read]
          exact ⟨_, rfl⟩

end Eval

namespace Interpreter

variable [DecidableEq ν] {label : ν → String} {interp after : Interpreter ν} {scope : Nat}
  {out : Outcome (Interpreter ν) EvalError Value}

/-- What an expression does on all but little fuel is how it ends. -/
theorem converges_of_late {e : Expr ν} {x : Eval ν Value} (atomic : Eval.Atomic x)
    (late : ∀ n, MiniLisp.eval (interp.context label) (n + 2) e = x) :
    Outcome.Converges (interp.eval label · scope e) out ↔ out = interp.run scope x := by
  constructor
  · rintro ⟨done, fuel, rfl⟩
    have same := run_stable (eval_stable (interp.context label) (Nat.le_add_right fuel 2) e) done
    rw [late] at same
    exact same.symm
  · rintro rfl
    refine ⟨mt run_eq_exhausted.1 (atomic.ne_exhausted _), 2, ?_⟩
    show interp.run scope (MiniLisp.eval (interp.context label) (0 + 2) e) = _
    rw [late]

/-- A fixed target names one place, or its index is refused. -/
theorem fixed_cases (x : ν) (index : Option Scalar) :
    (∃ p, Place.fixed? x index = some p ∧
      (∀ cx n, MiniLisp.eval cx (n + 2) (Target.fixed x index).read = Eval.readPlace cx p) ∧
      ∀ direction d cx n, MiniLisp.eval cx (n + 2) ((Target.fixed x index).move direction d) =
        Eval.update cx (.move direction) p (.int d)) ∨
    ∃ cause, Place.fixed? x index = none ∧
      (∀ cx n, MiniLisp.eval cx (n + 2) (Target.fixed x index).read = Eval.fail cx cause) ∧
      ∀ direction d cx n, MiniLisp.eval cx (n + 2) ((Target.fixed x index).move direction d) =
        Eval.fail cx cause := by
  cases index with
  | none => exact .inl ⟨.var x, rfl, fun _ _ => rfl, fun _ _ _ _ => rfl⟩
  | some s =>
      have read (cx : Context ν) (n : Nat) : MiniLisp.eval cx (n + 2) (Target.fixed x (some s)).read =
          (Eval.index cx (MiniLisp.eval cx (n + 1)) (.literal s) >>= fun i =>
            Eval.readPlace cx (.element x i)) := rfl
      have literal (cx : Context ν) (n : Nat) : Eval.index cx (MiniLisp.eval cx (n + 1)) (.literal s) =
          match s.int? with
          | some i => pure i
          | none => Eval.fail cx (.nonIntegerIndex s.typeName) := rfl
      have move (direction : Direction) (d : Int64) (cx : Context ν) (n : Nat) :
          MiniLisp.eval cx (n + 2) ((Target.fixed x (some s)).move direction d) =
            Eval.updateAt cx (.move direction) x (.int d) (.scalar s) :=
        Eval.step_updateElement cx _ (n + 1) _ x _ _
      have given : (Value.scalar s).int? = s.int? := rfl
      simp only [read, literal, move, Eval.updateAt, given, Place.fixed?]
      cases s.int? with
      | some i => exact .inl ⟨.element x i, rfl, fun _ _ => rfl, fun _ _ _ _ => rfl⟩
      | none => exact .inr ⟨_, rfl, fun _ _ => rfl, fun _ _ _ _ => rfl⟩

variable {p : Place ν} {direction : Direction} {c d m : Int64}

theorem run_readPlace (label : ν → String) (interp : Interpreter ν) (scope : Nat) (p : Place ν) :
    interp.run scope (Eval.readPlace (interp.context label) p) =
      match interp.store.read label scope p with
      | .ok v => .value v interp
      | .error cause => .error ((interp.context label).raise interp.stack cause) interp := by
  cases outcome : interp.store.read label scope p with
  | ok v =>
      have reads : Eval.readPlace (interp.context label) p (interp.load scope) = _ :=
        Eval.readPlace_of_ok outcome
      rw [run_of_value reads, save_load]
  | error cause =>
      have reads : Eval.readPlace (interp.context label) p (interp.load scope) = _ :=
        Eval.readPlace_of_error outcome
      rw [run_of_error reads, save_load]
      rfl

theorem run_writePlace {v : Value} (h : (interp.store.write label scope p v).1 = .ok v) :
    interp.run scope (Eval.writePlace (interp.context label) p v) =
      .value v { interp with store := (interp.store.write label scope p v).2 } := by
  have writes : Eval.writePlace (interp.context label) p v (interp.load scope) =
      Eval.ofExcept (interp.context label) (interp.store.write label scope p v).1
        { interp.load scope with scopes := (p.write label v (interp.store.view scope)).2 } := rfl
  rw [h] at writes
  exact run_of_value writes

/-- Where an integer is read, any integer can be written. -/
theorem write_int_of_read (h : interp.store.read label scope p = .ok (.int c)) (m : Int64) :
    (interp.store.write label scope p (.int m)).1 = .ok (.int m) := by
  rw [Store.read_eq] at h
  obtain ⟨new, put⟩ := Place.put_scalar_of_get h (.int m)
  rw [Store.write_of_put put]

/-- Moving the integer at a place writes the moved integer there. -/
theorem run_move (read : interp.store.read label scope p = .ok (.int c))
    (moved : m.toInt = direction.reach c d) :
    interp.run scope (Eval.update (interp.context label) (.move direction) p (.int d)) =
      .value (.int m) { interp with store := (interp.store.write label scope p (.int m)).2 } := by
  have read' : p.read (interp.context label).label (interp.load scope).scopes = .ok (.int c) := read
  rw [run_eq, Eval.update_move_int read', direction.move?_eq_some.2 moved]
  dsimp only
  rw [← run_eq, run_writePlace (write_int_of_read read m)]

/-- The place is the integer's old one again once it is moved back. -/
theorem run_move_opposite (exists_scope : scope < interp.store.size)
    (read : interp.store.read label scope p = .ok (.int c)) (moved : m.toInt = direction.reach c d) :
    let after := { interp with store := (interp.store.write label scope p (.int m)).2 }
    after.store.read label scope p = .ok (.int m) ∧
      after.run scope (Eval.update (after.context label) (.move direction.opposite) p (.int d)) =
        .value (.int c) interp := by
  intro after
  have first := write_int_of_read read m
  have stored : after.store.read label scope p = .ok (.int m) := Store.read_of_write exists_scope first
  -- The second write to the place is the only one that counts, and it writes what was read at first.
  have second := write_int_of_read stored c
  have restored : (after.store.write label scope p (.int c)).2 = interp.store := by
    rw [Store.write_write exists_scope first second, Store.write_of_read read]
  refine ⟨stored, ?_⟩
  rw [run_move stored (Direction.reach_opposite moved), restored]

/-- The target reads as the integer, and reading it changes nothing. -/
def Reads (label : ν → String) (interp : Interpreter ν) (scope : Nat) (target : Target ν)
    (c : Int64) : Prop :=
  Outcome.Converges (interp.eval label · scope target.read) (.value (.int c) interp)

/-- Moving the integer at a target by the amount yields the second integer in place of the first and
stores it there. Nothing else changes, and moving back by the same amount restores everything. -/
def MovesTo (label : ν → String) (interp : Interpreter ν) (scope : Nat) (target : Target ν)
    (place? : Option (Place ν)) (direction : Direction) (d c m : Int64) : Prop :=
  ∃ p store, place? = some p ∧ interp.store.Changes scope p (.int m) store ∧
    Outcome.Converges (interp.eval label · scope (target.move direction d))
      (.value (.int m) { interp with store }) ∧
    Reads label { interp with store } scope target m ∧
    Outcome.Converges (eval label · { interp with store } scope (target.move direction.opposite d))
      (.value (.int c) interp)

/-- What moving the integer at a target by the amount does. It succeeds exactly if the target reads as
an integer and the integer that is reached is in range, and otherwise it fails and changes nothing. -/
structure Moves (label : ν → String) (interp : Interpreter ν) (scope : Nat) (target : Target ν)
    (place? : Option (Place ν)) (direction : Direction) (d : Int64) : Prop where
  succeeds : (∃ v after,
      Outcome.Converges (interp.eval label · scope (target.move direction d)) (.value v after)) ↔
    ∃ c, interp.Reads label scope target c ∧ Word.InRange (direction.reach c d)
  moves : ∀ c m, interp.Reads label scope target c → m.toInt = direction.reach c d →
    MovesTo label interp scope target place? direction d c m
  fails : (¬∃ c, interp.Reads label scope target c ∧ Word.InRange (direction.reach c d)) →
    ∃ err, Outcome.Converges (interp.eval label · scope (target.move direction d)) (.error err interp)

theorem reads_iff {target : Target ν}
    (read : ∀ cx n, MiniLisp.eval cx (n + 2) target.read = Eval.readPlace cx p) :
    interp.Reads label scope target c ↔ interp.store.read label scope p = .ok (.int c) := by
  rw [Reads, converges_of_late (Eval.still_readPlace _ p).atomic (read _), run_readPlace]
  cases interp.store.read label scope p with
  | ok v => simp [eq_comm]
  | error cause => simp

theorem run_move_fails
    (h : ¬∃ c, interp.store.read label scope p = .ok (.int c) ∧ Word.InRange (direction.reach c d)) :
    ∃ err, interp.run scope (Eval.update (interp.context label) (.move direction) p (.int d)) =
      .error err interp := by
  have stuck : ∀ c, p.read (interp.context label).label (interp.load scope).scopes = .ok (.int c) →
      direction.move? c d = none := fun c read =>
    direction.move?_eq_none.2 fun range => h ⟨c, read, range⟩
  obtain ⟨err, failed⟩ := Eval.update_move_fails stuck
  refine ⟨err, ?_⟩
  rw [run_of_error failed, save_load]

/-- A form that moves an integer where it can and fails elsewhere succeeds exactly where it can. -/
theorem Moves.of {target : Target ν} {place? : Option (Place ν)}
    (moves : ∀ c m, interp.Reads label scope target c → m.toInt = direction.reach c d →
      MovesTo label interp scope target place? direction d c m)
    (fails : (¬∃ c, interp.Reads label scope target c ∧ Word.InRange (direction.reach c d)) →
      ∃ err, Outcome.Converges (interp.eval label · scope (target.move direction d))
        (.error err interp)) :
    interp.Moves label scope target place? direction d := by
  refine ⟨⟨?_, ?_⟩, moves, fails⟩
  · rintro ⟨v, after, succeeded⟩
    by_contra stuck
    obtain ⟨err, failed⟩ := fails stuck
    cases eval_unique label _ succeeded failed
  · rintro ⟨c, reads, range⟩
    have reached : (Int64.ofInt (direction.reach c d)).toInt = direction.reach c d :=
      Int64.toInt_ofInt_of_le range.1 range.2
    obtain ⟨p, store, -, -, succeeded, -⟩ := moves c _ reads reached
    exact ⟨_, _, succeeded⟩

theorem moves_of_place (exists_scope : scope < interp.store.size) {target : Target ν}
    (read : ∀ cx n, MiniLisp.eval cx (n + 2) target.read = Eval.readPlace cx p)
    (move : ∀ direction d cx n, MiniLisp.eval cx (n + 2) (target.move direction d) =
      Eval.update cx (.move direction) p (.int d)) :
    interp.Moves label scope target (some p) direction d := by
  refine .of (fun c m reads moved => ?_) fun stuck => ?_
  · have stored := (reads_iff read).1 reads
    let after := { interp with store := (interp.store.write label scope p (.int m)).2 }
    obtain ⟨again, back⟩ := run_move_opposite exists_scope stored moved
    have changes : interp.store.Changes scope p (.int m) after.store := by
      have got := stored
      rw [Store.read_eq] at got
      obtain ⟨old, found, -⟩ := Place.put_get got
      exact Store.changes_of_write (write_int_of_read stored m) found
    have forth : Outcome.Converges (interp.eval label · scope (target.move direction d))
        (.value (.int m) after) := by
      rw [converges_of_late (Eval.atomic_update _ _ p _) (move direction d _), run_move stored moved]
    have rereads : after.Reads label scope target m := (reads_iff read).2 again
    have restores : Outcome.Converges (after.eval label · scope (target.move direction.opposite d))
        (.value (.int c) interp) := by
      rw [converges_of_late (Eval.atomic_update _ _ p _) (move direction.opposite d _), back]
    exact ⟨p, after.store, rfl, changes, forth, rereads, restores⟩
  · simp only [reads_iff read] at stuck
    obtain ⟨err, failed⟩ := run_move_fails stuck
    refine ⟨err, ?_⟩
    rw [converges_of_late (Eval.atomic_update _ _ p _) (move direction d _), failed]

/-- A target with a literal index that is no integer is neither read nor moved. -/
theorem moves_of_refused {target : Target ν} {place? : Option (Place ν)} {cause : Cause}
    (read : ∀ cx n, MiniLisp.eval cx (n + 2) target.read = Eval.fail cx cause)
    (move : ∀ direction d cx n, MiniLisp.eval cx (n + 2) (target.move direction d) =
      Eval.fail cx cause) :
    interp.Moves label scope target place? direction d := by
  have refused : interp.run scope (Eval.fail (interp.context label) cause) =
      (.error ((interp.context label).raise interp.stack cause) interp :
        Outcome (Interpreter ν) EvalError Value) := by
    have failed : (Eval.fail (interp.context label) cause : Eval ν Value) (interp.load scope) =
      .error ((interp.context label).raise interp.stack cause) (interp.load scope) := rfl
    rw [run_of_error failed, save_load]
  refine .of (fun c m reads _ => ?_) fun _ => ⟨(interp.context label).raise interp.stack cause, ?_⟩
  · rw [Reads, converges_of_late (.fail _ cause) (read _), refused] at reads
    cases reads
  · rw [converges_of_late (.fail _ cause) (move direction d _), refused]

theorem moves_fixed (exists_scope : scope < interp.store.size) (x : ν) (index : Option Scalar)
    (direction : Direction) (d : Int64) :
    interp.Moves label scope (Target.fixed x index) (Place.fixed? x index) direction d := by
  rcases fixed_cases x index with
    ⟨p, named, read, move⟩ | ⟨cause, unnamed, read, move⟩
  · rw [named]
    exact moves_of_place exists_scope read move
  · exact moves_of_refused read move

/-- A form that assigns a value evaluates its right-hand side and then the index of its target, each
once and nothing else; if it fails, it leaves what these evaluations left. At a variable or a literal
index, moving the stored integer by a literal amount succeeds exactly if the result is in range, it
changes nothing else, and moving back by the same amount restores all. -/
theorem assignments_atomic (label : ν → String) (interp : Interpreter ν) {scope : Nat}
    (exists_scope : scope < interp.store.size) :
    (∀ (form : Assignment ν) value out,
      Outcome.Converges (interp.eval label · scope (form.expr value)) out ↔
        Assigns label scope value form interp out) ∧
    (∀ (form : Assignment ν) value err after,
      Outcome.Converges (interp.eval label · scope (form.expr value)) (.error err after) →
        Leaves label scope (form.parts value) interp after) ∧
    ∀ x index direction d,
      interp.Moves label scope (Target.fixed x index) (Place.fixed? x index) direction d := by
  refine ⟨fun form value out => converges_assignment exists_scope value form, ?_, ?_⟩
  · intro form value err after failed
    exact ((converges_assignment exists_scope value form).1 failed).leaves
  · exact moves_fixed exists_scope

/-- A root that binds the name 0 to an array, and a scope below it that binds the name 1. -/
def tallies : Interpreter Nat where
  store := (Store.new.setBindings 0 ⟨[(0, .array #[.int (-1), .int 5])]⟩).push
    ⟨⟨[(1, .int 7)]⟩, some 0⟩ (by decide +kernel)
  functions := FunctionTable.new
  stack := CallStack.new none
  printer := .silent

/-- The least integer has no negative. Yet -1 is moved down by it and back; 7 is not moved, for want of
a result. A form whose index is out of range keeps what the evaluation of the index wrote. -/
theorem assignments_atomic_tallies :
    let element : Target Nat := .fixed 0 (some (.int 0))
    let number : Target Nat := .fixed 1 none
    let index : Expr Nat := .update .setf 1 (.literal (.int 9))
    let failing : Expr Nat := .updateElement (.move .up) 0 index (.literal (.int 1))
    MovesTo toString tallies 1 element (some (.element 0 0)) .down Int64.minValue (-1) Int64.maxValue ∧
    (∃ err, Outcome.Converges (tallies.eval toString · 1 (number.move .down Int64.minValue))
      (.error err tallies)) ∧
    ∃ err after, Outcome.Converges (tallies.eval toString · 1 failing) (.error err after) ∧
      err.cause = .indexOutOfRange 9 2 ∧ Leaves toString 1 [.literal (.int 1), index] tallies after ∧
      after.lookup 1 1 = some (.int 9) := by
  intro element number index failing
  have bound : 1 < tallies.store.size := by decide +kernel
  obtain ⟨-, leaves, moves⟩ := assignments_atomic toString tallies bound
  refine ⟨(moves 0 (some (.int 0)) .down Int64.minValue).moves (-1) Int64.maxValue ?_ ?_,
    (moves 1 none .down Int64.minValue).fails ?_, ?_⟩
  · exact (reads_iff fun _ _ => rfl).2 (by decide +kernel)
  · decide
  · rintro ⟨c, reads, range⟩
    have stored : tallies.store.read toString 1 (.var 1) = .ok (.int 7) := by decide +kernel
    rw [(reads_iff fun _ _ => rfl).1 reads] at stored
    cases stored
    exact absurd range (by decide)
  · let out := tallies.eval toString 4 1 failing
    have fails : (out.failure?.map EvalError.cause) = some (.indexOutOfRange 9 2) := by decide +kernel
    have looked : (out.after?.map (lookup · 1 1)) = some (some (.int 9)) := by decide +kernel
    obtain ⟨err, failure, cause⟩ := Option.map_eq_some_iff.1 fails
    obtain ⟨after, ended⟩ := Outcome.failure?_eq_some.1 failure
    rw [ended] at looked
    have failed : Outcome.Converges (tallies.eval toString · 1 failing) (.error err after) :=
      .of_error ended
    exact ⟨err, after, failed, cause,
      leaves (.update (.move .up) (.element 0 index)) (.literal (.int 1)) err after failed,
      Option.some.inj looked⟩

end Interpreter

end MiniLisp
