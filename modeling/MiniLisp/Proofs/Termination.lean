import MiniLisp.Proofs.Balance
import MiniLisp.Proofs.Fuel
import MiniLisp.Proofs.Step

/-!
Evaluation comes to an end where calls are limited and loops are counted. A loop without a count is
ruled out, and a loop over a range has to start at a literal integer: its counter then passes the last
number or leaves the range of integers. The proof is by induction on the calls that the limit still
allows, and for each of them on the expression; the fuel that is found does not depend on the state
(`Interpreter.eval_terminates`).
-/

open Filter

namespace MiniLisp

variable {ν α β : Type}

/-! ### Counted loops -/

def Expr.isIntLiteral : Expr ν → Bool
  | .literal (.int _) => true
  | _ => false

mutual

/-- All loops in the text are counted: none repeats its body until it returns, and every range starts
at a literal integer. -/
def Expr.counted : Expr ν → Bool
  | .literal _ => true
  | .var _ => true
  | .element _ index => index.counted
  | .unary _ operand => operand.counted
  | .binary _ left right => left.counted && right.counted
  | .variadic _ operands => Expr.countedAll operands
  | .bind _ _ value => value.counted
  | .update _ _ value => value.counted
  | .updateElement _ _ index value => index.counted && value.counted
  | .ifThen cond yes => cond.counted && yes.counted
  | .ifElse cond yes no => cond.counted && yes.counted && no.counted
  | .loop _ => false
  | .loopFor _ first last body => first.isIntLiteral && last.counted && Expr.countedAll body
  | .dotimes _ count body => count.counted && Expr.countedAll body
  | .call _ args => Expr.countedAll args
  | .ret value => value.counted

def Expr.countedAll : List (Expr ν) → Bool
  | [] => true
  | e :: rest => e.counted && Expr.countedAll rest

end

/-- All loops in the bodies of functions are counted. -/
def FunctionTable.Counted [DecidableEq ν] (functions : FunctionTable ν) : Prop :=
  ∀ f found, functions.get? f = some found → Expr.countedAll found.fn.body

namespace FunctionTable.Counted

variable [DecidableEq ν] {functions : FunctionTable ν}

theorem new : (FunctionTable.new : FunctionTable ν).Counted := nofun

theorem define (h : functions.Counted) {fn : FunctionDef ν} (body : Expr.countedAll fn.body) :
    (functions.define fn).2.Counted := by
  intro f found known
  rw [get?_define] at known
  split at known
  · cases known
    exact body
  · exact h f found known

end FunctionTable.Counted

/-- The limit allows no more than so many further calls at once. -/
structure State.Spare (limit calls : Nat) (s : State ν) : Prop where
  limit_eq : s.stack.limit = some limit
  le_depth : limit ≤ s.stack.depth + calls

theorem State.Balanced.spare {limit calls : Nat} {s t : State ν} (h : s.Balanced t)
    (spare : s.Spare limit calls) : t.Spare limit calls := by
  refine ⟨h.limit.trans spare.limit_eq, ?_⟩
  rw [CallStack.depth, h.frames]
  exact spare.le_depth

namespace Run

/-- From every state with no more than so many calls to spare, the computation comes to an end. -/
structure Ends (limit calls : Nat) (x : Eval ν α) : Prop where
  balanced : Balanced x
  ends : ∀ s : State ν, s.Spare limit calls → x s ≠ .exhausted

namespace Ends

variable {limit calls : Nat} {x : Eval ν α}

theorem act (cx : Context ν) (f : Chain ν → Printer → Except Cause α × Chain ν × Printer) :
    Ends limit calls (Eval.act cx f) := by
  refine ⟨.act cx f, fun s _ lacking => ?_⟩
  rw [Eval.act_apply] at lacking
  split at lacking
  · cases lacking
  · cases lacking

theorem pure (a : α) : Ends limit calls (pure a : Eval ν α) := by
  refine ⟨.pure .refl a, fun s _ lacking => ?_⟩
  cases lacking

theorem bind {f : α → Eval ν β} (h : Ends limit calls x) (hf : ∀ a, Ends limit calls (f a)) :
    Ends limit calls (x >>= f) := by
  refine ⟨h.balanced.bind fun a => (hf a).balanced, fun s spare => ?_⟩
  have first := h.ends s spare
  cases hx : x s with
  | value a t =>
      rw [bind_of_value hx]
      exact (hf a).ends t ((h.balanced.of_value hx).spare spare)
  | error e t =>
      rw [bind_of_error hx]
      nofun
  | exhausted => exact absurd hx first

theorem inNewScope (h : Ends limit calls x) : Ends limit calls (Eval.inNewScope x) := by
  refine ⟨h.balanced.inNewScope, fun s spare => ?_⟩
  rw [Eval.inNewScope_apply]
  have inside : ({ s with scopes := s.scopes.enter } : State ν).Spare limit calls :=
    ⟨spare.limit_eq, spare.le_depth⟩
  exact mt Outcome.exit_eq_exhausted.1 (h.ends _ inside)

/-- A call ends if its body ends with one call less to spare; with none to spare it is refused. -/
theorem activate [DecidableEq ν] (cx : Context ν) (f : ν) (arguments : List (ν × Value))
    (balanced : Balanced x) (h : ∀ fewer, calls = fewer + 1 → Ends limit fewer x) :
    Ends limit calls (Eval.activate cx f arguments x) := by
  refine ⟨balanced.activate cx f arguments, fun s spare => ?_⟩
  rcases Eval.activate_cases cx f arguments x s with ⟨_, -, -, refused⟩ | ⟨room, started⟩
  · rw [refused]
    nofun
  · have below := room limit spare.limit_eq
    have enough := spare.le_depth
    have inside : (s.enterCall (s.stack.entered f) arguments).Spare limit (calls - 1) := by
      refine ⟨spare.limit_eq, ?_⟩
      show limit ≤ s.stack.frames.length + 1 + (calls - 1)
      unfold CallStack.depth at below enough
      omega
    rw [started]
    exact mt Outcome.exit_eq_exhausted.1 ((h (calls - 1) (by omega)).ends _ inside)

section Operations

variable (cx : Context ν)

theorem ofExcept (r : Except Cause α) : Ends limit calls (Eval.ofExcept cx r) :=
  act cx fun c p => (r, c, p)

theorem fail (cause : Cause) : Ends limit calls (Eval.fail cx cause : Eval ν α) :=
  ofExcept cx (.error cause)

theorem unary (op : UnaryOp) (v : Value) : Ends limit calls (Eval.unary cx op v) :=
  act cx fun c p => ((op.apply v p).1, c, (op.apply v p).2)

variable {cx} {rec : Expr ν → Eval ν Value}

theorem all {es : List (Expr ν)} (h : ∀ e ∈ es, Ends limit calls (rec e)) :
    Ends limit calls (Eval.all rec es) := by
  induction es with
  | nil => exact pure []
  | cons e rest ih =>
      obtain ⟨head, tail⟩ := List.forall_mem_cons.1 h
      exact head.bind fun v => (ih tail).bind fun vs => pure (v :: vs)

theorem body {stmts : List (Expr ν)}
    (h : ∀ stmt ∈ stmts, Ends limit calls (Eval.statement rec stmt)) (last : Value) :
    Ends limit calls (Eval.body rec stmts last) := by
  induction stmts generalizing last with
  | nil => exact pure (BodyResult.completed last)
  | cons stmt rest ih =>
      obtain ⟨head, tail⟩ := List.forall_mem_cons.1 h
      rw [Eval.body_cons]
      refine head.bind fun result => ?_
      match result with
      | none => exact ih tail last
      | some (.returned v) => exact pure (BodyResult.returned v)
      | some (.completed v) => exact ih tail v

theorem index {e : Expr ν} (h : Ends limit calls (rec e)) :
    Ends limit calls (Eval.index cx rec e) := by
  refine h.bind fun v => ?_
  split
  · exact pure _
  · exact fail cx _

variable [DecidableEq ν]

theorem define (x : ν) (v : Value) : Ends limit calls (Eval.define x v) := by
  refine ⟨fun s t ended => ?_, fun s _ lacking => ?_⟩
  · cases ended
    exact ⟨rfl, rfl, Nat.le_refl _⟩
  · cases lacking

theorem times {body : Eval ν BodyResult} (h : Ends limit calls body) (x : ν) (left done : Nat) :
    Ends limit calls (Eval.times x body left done) := by
  induction left generalizing done with
  | zero => exact pure Value.nil
  | succ left ih =>
      refine (define x _).bind fun _ => h.bind fun result => ?_
      cases result with
      | returned v => exact pure v
      | completed v => exact ih (done + 1)

variable (cx)

theorem readPlace (place : Place ν) : Ends limit calls (Eval.readPlace cx place) :=
  act cx fun c p => (place.read cx.label c, c, p)

theorem writePlace (place : Place ν) (v : Value) : Ends limit calls (Eval.writePlace cx place v) :=
  act cx fun c p => ((place.write cx.label v c).1, (place.write cx.label v c).2, p)

theorem assign (x : ν) (v : Value) : Ends limit calls (Eval.assign cx x v) := by
  rw [Eval.assign_eq_act]
  exact act cx _

theorem bindName (op : BindOp) (x : ν) (v : Value) : Ends limit calls (Eval.bindName cx op x v) := by
  cases op with
  | defvar => exact (define x v).bind fun _ => pure v
  | setq => exact (assign cx x v).bind fun _ => pure v

theorem update (op : UpdateOp) (place : Place ν) (v : Value) :
    Ends limit calls (Eval.update cx op place v) := by
  cases op with
  | setf => exact writePlace cx place v
  | move direction =>
      refine (readPlace cx place).bind fun current => ?_
      refine (ofExcept cx _).bind fun n => ?_
      refine (ofExcept cx _).bind fun amount => ?_
      split
      · exact writePlace cx place _
      · exact fail cx _

variable {cx}

/-- The budget covers the integers from the counter to the end of the range of words: either the
counter passes the last number on the way, or it cannot be moved any further. -/
theorem forRange {body : Eval ν BodyResult} (h : Ends limit calls body) (x : ν) (last : Number)
    {budget : Nat} {n : Int64} (enough : 0x8000000000000000 ≤ n.toInt + budget) :
    Ends limit calls (Eval.forRange cx x last body budget (.int n)) := by
  induction budget generalizing n with
  | zero =>
      -- no word is above the range, so a budget of nothing never covers it
      have below := n.toInt_lt
      omega
  | succ budget ih =>
      unfold Eval.forRange
      split
      · refine (define x _).bind fun _ => h.bind fun result => ?_
        cases result with
        | returned v => exact pure v
        | completed v =>
            cases hm : Word.add? n 1 with
            | none =>
                have stuck : (Number.int n).increment = .error (.integerOverflow "increment") := by
                  rw [Number.increment, hm]
                rw [stuck]
                exact fail cx (.integerOverflow "increment")
            | some m =>
                have moved : (Number.int n).increment = .ok (.int m) := by
                  rw [Number.increment, hm]
                have next : m.toInt = n.toInt + 1 := Word.ofInt?_eq_some_iff.1 hm
                rw [moved]
                exact ih (by omega)
      · exact pure Value.nil

/-- The budget covers the whole range of words. -/
theorem loopFor {x : ν} {n : Int64} {last : Expr ν} {stmts : List (Expr ν)} {budget : Nat}
    (enough : 0x10000000000000000 ≤ budget) (hfirst : rec (.literal (.int n)) = Pure.pure (.int n))
    (hlast : Ends limit calls (rec last))
    (hbody : ∀ stmt ∈ stmts, Ends limit calls (Eval.statement rec stmt)) :
    Ends limit calls (Eval.loopFor cx rec budget x (.literal (.int n)) last stmts) := by
  have started : Eval.loopFor cx rec budget x (.literal (.int n)) last stmts =
      (rec last >>= fun w => Eval.ofExcept cx (Operand.number "LOOP FOR" w) >>= fun stop =>
        Eval.inNewScope (Eval.forRange cx x stop (Eval.body rec stmts .nil) budget (.int n))) := by
    unfold Eval.loopFor
    rw [hfirst]
    rfl
  rw [started]
  refine hlast.bind fun w => (ofExcept cx _).bind fun stop => ?_
  have lowest := n.le_toInt
  exact (forRange (body hbody .nil) x stop (by omega)).inNewScope

theorem dotimes {x : ν} {count : Expr ν} {stmts : List (Expr ν)}
    (hcount : Ends limit calls (rec count))
    (hbody : ∀ stmt ∈ stmts, Ends limit calls (Eval.statement rec stmt)) :
    Ends limit calls (Eval.dotimes cx rec x count stmts) := by
  refine hcount.bind fun v => (ofExcept cx _).bind fun n => ?_
  exact (times (body hbody .nil) x _ 0).inNewScope

theorem call {f : ν} {args : List (Expr ν)}
    (balanced : ∀ found, cx.functions.get? f = some found →
      Balanced (Eval.body rec found.fn.body .nil))
    (hargs : ∀ e ∈ args, Ends limit calls (rec e))
    (hbody : ∀ found, cx.functions.get? f = some found → ∀ fewer, calls = fewer + 1 →
      ∀ stmt ∈ found.fn.body, Ends limit fewer (Eval.statement rec stmt)) :
    Ends limit calls (Eval.call cx rec f args) := by
  unfold Eval.call
  split
  · exact fail cx _
  · next found hfound =>
      refine (all hargs).bind fun values => (ofExcept cx _).bind fun _ => ?_
      refine (activate cx f _ (balanced found hfound) fun fewer spent => ?_).bind fun result => ?_
      · exact body (hbody found hfound fewer spent) .nil
      · exact pure _

end Operations

end Ends

end Run

variable [DecidableEq ν] {cx : Context ν} {limit calls : Nat}

/-- With that much fuel the expression comes to an end, when it is evaluated and when it is executed
as a statement. -/
structure Halting (cx : Context ν) (limit calls fuel : Nat) (e : Expr ν) : Prop where
  value : Run.Ends limit calls (eval cx fuel e)
  statement : Run.Ends limit calls (Eval.statement (eval cx fuel) e)

namespace Halting

theorem of_step {e : Expr ν} (plain : e.isPlain)
    (h : ∀ᶠ n in atTop, Run.Ends limit calls (Eval.step cx (eval cx n) n e)) :
    ∀ᶠ n in atTop, Halting cx limit calls n e := by
  filter_upwards [eval_eventually (p := Run.Ends limit calls) h] with n value
  refine ⟨value, ?_⟩
  rw [Eval.statement_of_plain _ plain]
  exact value.bind fun v => .pure _

theorem ret {e : Expr ν} (h : ∀ᶠ n in atTop, Halting cx limit calls n e) :
    ∀ᶠ n in atTop, Halting cx limit calls n (.ret e) := by
  have value : ∀ᶠ n in atTop, Run.Ends limit calls (eval cx n (.ret e)) :=
    eval_eventually (p := Run.Ends limit calls) (h.mono fun n inside => inside.value)
  filter_upwards [h, value] with n inside value
  exact ⟨value, inside.value.bind fun v => .pure _⟩

theorem ifThen {cond yes : Expr ν} (hcond : ∀ᶠ n in atTop, Halting cx limit calls n cond)
    (hyes : ∀ᶠ n in atTop, Halting cx limit calls n yes) :
    ∀ᶠ n in atTop, Halting cx limit calls n (.ifThen cond yes) := by
  have value : ∀ᶠ n in atTop, Run.Ends limit calls (eval cx n (.ifThen cond yes)) := by
    refine eval_eventually (p := Run.Ends limit calls) ?_
    filter_upwards [hcond, hyes] with n hcond hyes
    refine hcond.value.bind fun v => ?_
    split
    · exact hyes.value
    · exact .pure _
  filter_upwards [hcond, hyes, value] with n hcond hyes value
  refine ⟨value, ?_⟩
  rw [Eval.statement_ifThen]
  refine hcond.value.bind fun v => ?_
  split
  · exact hyes.statement
  · exact .pure _

theorem ifElse {cond yes no : Expr ν} (hcond : ∀ᶠ n in atTop, Halting cx limit calls n cond)
    (hyes : ∀ᶠ n in atTop, Halting cx limit calls n yes)
    (hno : ∀ᶠ n in atTop, Halting cx limit calls n no) :
    ∀ᶠ n in atTop, Halting cx limit calls n (.ifElse cond yes no) := by
  have value : ∀ᶠ n in atTop, Run.Ends limit calls (eval cx n (.ifElse cond yes no)) := by
    refine eval_eventually (p := Run.Ends limit calls) ?_
    filter_upwards [hcond, hyes, hno] with n hcond hyes hno
    refine hcond.value.bind fun v => ?_
    split
    · exact hyes.value
    · exact hno.value
  filter_upwards [hcond, hyes, hno, value] with n hcond hyes hno value
  refine ⟨value, ?_⟩
  rw [Eval.statement_ifElse]
  refine hcond.value.bind fun v => ?_
  split
  · exact hyes.statement
  · exact hno.statement

/-- A call halts if its arguments do and the bodies of functions do with one call less to spare. -/
theorem call {f : ν} {args : List (Expr ν)}
    (bodies : ∀ found, cx.functions.get? f = some found → ∀ᶠ n in atTop, ∀ fewer,
      calls = fewer + 1 → ∀ stmt ∈ found.fn.body, Halting cx limit fewer n stmt)
    (hargs : ∀ᶠ n in atTop, ∀ e ∈ args, Halting cx limit calls n e) :
    ∀ᶠ n in atTop, Halting cx limit calls n (.call f args) := by
  have hbody : ∀ᶠ n in atTop, ∀ found, cx.functions.get? f = some found → ∀ fewer,
      calls = fewer + 1 → ∀ stmt ∈ found.fn.body, Halting cx limit fewer n stmt := by
    cases known : cx.functions.get? f with
    | none => exact .of_forall fun n found impossible => nomatch impossible
    | some found =>
        filter_upwards [bodies found known] with n hbody other same
        cases same
        exact hbody
  refine of_step rfl ?_
  filter_upwards [hargs, hbody] with n hargs hbody
  refine .call (fun found _ => balanced_body cx n _ _) (fun e mem => (hargs e mem).value) ?_
  exact fun found hfound fewer spent stmt mem => (hbody found hfound fewer spent stmt mem).statement

end Halting

/-- The bodies of functions halt with one call less to spare. -/
def BodiesHalt (cx : Context ν) (limit calls : Nat) : Prop :=
  ∀ f found, cx.functions.get? f = some found → ∀ᶠ n in atTop, ∀ fewer,
    calls = fewer + 1 → ∀ stmt ∈ found.fn.body, Halting cx limit fewer n stmt

mutual

/-- Counted expressions halt if the bodies of functions do with one call less to spare. -/
theorem Expr.halts (bodies : BodiesHalt cx limit calls) :
    ∀ e : Expr ν, e.counted → ∀ᶠ n in atTop, Halting cx limit calls n e
  | .literal v, _ => Halting.of_step rfl (.of_forall fun _ => .pure _)
  | .var x, _ => Halting.of_step rfl (.of_forall fun _ => .readPlace cx _)
  | .element x index, h => by
      refine Halting.of_step rfl ?_
      filter_upwards [index.halts bodies h] with n hindex
      exact (Run.Ends.index hindex.value).bind fun i => .readPlace cx _
  | .unary op operand, h => by
      refine Halting.of_step rfl ?_
      filter_upwards [operand.halts bodies h] with n hoperand
      exact hoperand.value.bind fun v => .unary cx op v
  | .binary op left right, h => by
      obtain ⟨hl, hr⟩ := Bool.and_eq_true_iff.1 h
      refine Halting.of_step rfl ?_
      filter_upwards [left.halts bodies hl, right.halts bodies hr] with n hleft hright
      exact hleft.value.bind fun a => hright.value.bind fun b => .ofExcept cx _
  | .variadic op operands, h => by
      refine Halting.of_step rfl ?_
      filter_upwards [Expr.haltsAll bodies operands h] with n halting
      exact (Run.Ends.all fun e mem => (halting e mem).value).bind fun vs => .ofExcept cx _
  | .bind op x value, h => by
      refine Halting.of_step rfl ?_
      filter_upwards [value.halts bodies h] with n hvalue
      exact hvalue.value.bind fun v => .bindName cx op x v
  | .update op x value, h => by
      refine Halting.of_step rfl ?_
      filter_upwards [value.halts bodies h] with n hvalue
      exact hvalue.value.bind fun v => .update cx op _ v
  | .updateElement op x index value, h => by
      obtain ⟨hi, hv⟩ := Bool.and_eq_true_iff.1 h
      refine Halting.of_step rfl ?_
      filter_upwards [index.halts bodies hi, value.halts bodies hv] with n hindex hvalue
      refine hvalue.value.bind fun v => (Run.Ends.index hindex.value).bind fun i => ?_
      exact .update cx op _ v
  | .ifThen cond yes, h => by
      obtain ⟨hc, hy⟩ := Bool.and_eq_true_iff.1 h
      exact Halting.ifThen (cond.halts bodies hc) (yes.halts bodies hy)
  | .ifElse cond yes no, h => by
      obtain ⟨both, hn⟩ := Bool.and_eq_true_iff.1 h
      obtain ⟨hc, hy⟩ := Bool.and_eq_true_iff.1 both
      exact Halting.ifElse (cond.halts bodies hc) (yes.halts bodies hy) (no.halts bodies hn)
  | .loop _, h => nomatch h
  | .loopFor x (.literal (.int k)) last stmts, h => by
      obtain ⟨both, hs⟩ := Bool.and_eq_true_iff.1 h
      obtain ⟨-, hl⟩ := Bool.and_eq_true_iff.1 both
      refine Halting.of_step rfl ?_
      filter_upwards [last.halts bodies hl, Expr.haltsAll bodies stmts hs, eventually_ge_atTop 0x10000000000000000]
        with n hlast hstmts enough
      refine .loopFor enough ?_ hlast.value fun stmt mem => (hstmts stmt mem).statement
      obtain ⟨m, rfl⟩ : ∃ m, n = m + 1 := ⟨n - 1, by omega⟩
      rfl
  | .dotimes x count stmts, h => by
      obtain ⟨hc, hs⟩ := Bool.and_eq_true_iff.1 h
      refine Halting.of_step rfl ?_
      filter_upwards [count.halts bodies hc, Expr.haltsAll bodies stmts hs] with n hcount hstmts
      exact .dotimes hcount.value fun stmt mem => (hstmts stmt mem).statement
  | .call f args, h => Halting.call (bodies f) (Expr.haltsAll bodies args h)
  | .ret e, h => Halting.ret (e.halts bodies h)

theorem Expr.haltsAll (bodies : BodiesHalt cx limit calls) :
    ∀ es : List (Expr ν), Expr.countedAll es → ∀ᶠ n in atTop,
      ∀ e ∈ es, Halting cx limit calls n e
  | [], _ => .of_forall fun _ => nofun
  | e :: rest, h => by
      obtain ⟨he, hr⟩ := Bool.and_eq_true_iff.1 h
      filter_upwards [e.halts bodies he, Expr.haltsAll bodies rest hr] with n head tail
      exact List.forall_mem_cons.2 ⟨head, tail⟩

end

/-- Under a limit the bodies of counted functions halt: the induction is on the calls to spare. -/
theorem bodies_halt (counted : cx.functions.Counted) (calls : Nat) : BodiesHalt cx limit calls := by
  induction calls with
  | zero => exact fun _ _ _ => .of_forall fun _ fewer impossible => nomatch impossible
  | succ calls ih =>
      intro f found hfound
      filter_upwards [Expr.haltsAll ih found.fn.body (counted f found hfound)]
        with n halting fewer spent
      cases spent
      exact halting

namespace Interpreter

/-- Evaluation under a limit on the active calls comes to an end if all loops in the expression and
in the functions of the table are counted. -/
theorem eval_terminates (label : ν → String) (interp : Interpreter ν) (scope : Nat) (e : Expr ν)
    (limited : interp.stack.limit = some limit) (functions : interp.functions.Counted)
    (counted : e.counted) :
    ∃ out, Outcome.Converges (interp.eval label · scope e) out := by
  have halts : ∀ᶠ n in atTop, Halting (interp.context label) limit limit n e :=
    e.halts (bodies_halt functions limit) counted
  obtain ⟨fuel, halting⟩ := halts.exists
  have spare : (interp.load scope).Spare limit limit := ⟨limited, Nat.le_add_left _ _⟩
  have ended := halting.value.ends (interp.load scope) spare
  exact ⟨interp.eval label fuel scope e, mt Interpreter.run_eq_exhausted.1 ended, fuel, rfl⟩

/-- Two functions that call each other without end, one of them over and over. -/
def alternating (limit : Option Nat) : Interpreter Nat where
  store := Store.new
  functions := ((FunctionTable.new.define ⟨8, [], [.call 9 []]⟩).2.define
    ⟨9, [], [.loopFor 1 (.literal (.int 0)) (.literal (.float 0.5)) [.call 8 []]]⟩).2
  stack := CallStack.new limit
  printer := .silent

/-- A range may end at a float, and its body may set the counter back. -/
theorem eval_terminates_alternating :
    let e := .loopFor 1 (.literal (.int (-9223372036854775808))) (.literal (.float 1e300))
      [.bind .setq 1 (.literal (.int 0)),
        .dotimes 2 (.literal (.int 9223372036854775807)) [.call 8 []]]
    ∃ out, Outcome.Converges ((alternating (some 100)).eval toString · 0 e) out := by
  intro e
  have functions : (alternating (some 100)).functions.Counted :=
    (FunctionTable.Counted.new.define rfl).define rfl
  exact eval_terminates toString (alternating (some 100)) 0 e rfl functions rfl

end Interpreter

end MiniLisp
