import MiniLisp.Proofs.Fuel
import MiniLisp.Proofs.Safety

/-!
Integer programs. An operation on values without floats computes with integers alone, so its result is
free of floats too (`OperatorClosed.floatFree`). Main statement: an evaluation over bindings and
literals without floats leaves and yields no float, and no error blames one
(`Interpreter.eval_floatFree`).
-/

namespace MiniLisp

variable {ν α β : Type}

/-- Not a float, nor an array with a float in it. -/
def Value.FloatFree : Value → Prop
  | .scalar s => s.isFloat = false
  | .array cells => ∀ s ∈ cells, s.isFloat = false

theorem Value.FloatFree.typeName_ne {v : Value} (h : v.FloatFree) : v.typeName ≠ "float" := by
  obtain ⟨_ | _ | ⟨_ | _⟩ | _⟩ | _ := v <;>
    simp_all [FloatFree, typeName, Scalar.typeName, Scalar.isFloat]

theorem Value.floatFree_ofBool (b : Bool) : (Value.ofBool b).FloatFree := by cases b <;> rfl

/-- A number that is no float is an integer. -/
theorem Number.eq_int {n : Number} (h : (Value.number n).FloatFree) : ∃ k, n = .int k := by
  cases n with
  | int k => exact ⟨k, rfl⟩
  | float x => cases h

/-! ### Operators on integers -/

theorem Except.bind_eq_ok {ε : Type} {x : Except ε α} {f : α → Except ε β} {b : β} :
    (x >>= f) = .ok b ↔ ∃ a, x = .ok a ∧ f a = .ok b := by
  cases x with
  | ok a => exact ⟨fun h => ⟨a, rfl, h⟩, fun ⟨_, same, h⟩ => by cases same; exact h⟩
  | error e => exact ⟨nofun, nofun⟩

namespace Operand

theorem number_of_floatFree {symbol : String} {v : Value} {n : Number} (h : v.FloatFree)
    (found : number symbol v = .ok n) : ∃ k, n = .int k := by
  rw [number_eq_ok] at found
  subst found
  exact Number.eq_int h

theorem numbers_of_floatFree {symbol : String} {vs : List Value} {ns : List Number}
    (h : ∀ v ∈ vs, v.FloatFree) (found : numbers symbol vs = .ok ns) :
    ∃ ks : List Int64, ns = ks.map .int := by
  induction vs generalizing ns with
  | nil =>
      cases found
      exact ⟨[], rfl⟩
  | cons v rest ih =>
      obtain ⟨hv, hrest⟩ := List.forall_mem_cons.1 h
      rw [numbers, List.mapM_cons] at found
      obtain ⟨n, first, found⟩ := Except.bind_eq_ok.1 found
      obtain ⟨tail, others, found⟩ := Except.bind_eq_ok.1 found
      cases found
      obtain ⟨k, rfl⟩ := number_of_floatFree hv first
      obtain ⟨ks, rfl⟩ := ih hrest others
      exact ⟨k :: ks, rfl⟩

end Operand

theorem Number.remainder_int {symbol : String} {a b : Int64} {n : Number}
    (h : (Number.int a).remainder symbol (.int b) = .ok n) : ∃ k, n = .int k := by
  unfold remainder at h
  dsimp only at h
  split at h
  · cases h
  · split at h
    · cases h
      exact ⟨_, rfl⟩
    · cases h

theorem Arithmetic.apply_int (op : Arithmetic) (a : Int64) (ks : List Int64) :
    op.apply (.int a) (ks.map .int) = (ks.foldlM op.onInts a).map .int := by
  have ints : (ks.map Number.int).mapM Number.int? = some ks := by
    induction ks with
    | nil => rfl
    | cons k rest ih => simp [List.mapM_cons, Number.int?, ih]
  rw [apply, ints]
  rfl

theorem Extremum.apply_int (op : Extremum) (a : Int64) (ks : List Int64) :
    ∃ k, op.apply (.int a) (ks.map .int) = .int k := by
  induction ks generalizing a with
  | nil => exact ⟨a, rfl⟩
  | cons k rest ih =>
      have picked : ∃ best, op.pick (.int a) (.int k) = .int best := by
        unfold pick
        split
        · exact ⟨k, rfl⟩
        · exact ⟨a, rfl⟩
      obtain ⟨best, picked⟩ := picked
      obtain ⟨result, applied⟩ := ih best
      exact ⟨result, by rw [List.map_cons, apply, List.foldl_cons, picked]; exact applied⟩

theorem Connective.floatFree_apply (op : Connective) {first : Value} {rest : List Value}
    (h : ∀ v ∈ first :: rest, v.FloatFree) : (op.apply first rest).FloatFree := by
  cases op with
  | and =>
      unfold apply
      dsimp only
      split
      · rfl
      · exact h _ (List.getLast_mem _)
  | or =>
      unfold apply
      dsimp only
      cases found : (first :: rest).find? Value.isTrue with
      | none => rfl
      | some v => exact h v (List.mem_of_find?_eq_some found)

theorem BinaryOp.floatFree_apply {op : BinaryOp} {a b v : Value} (ha : a.FloatFree) (hb : b.FloatFree)
    (h : op.apply a b = .ok v) : v.FloatFree := by
  cases op with
  | compare test =>
      obtain ⟨x, _, h⟩ := Except.bind_eq_ok.1 h
      obtain ⟨y, _, h⟩ := Except.bind_eq_ok.1 h
      cases h
      exact Value.floatFree_ofBool _
  | mod | rem =>
      obtain ⟨x, hx, h⟩ := Except.bind_eq_ok.1 h
      obtain ⟨y, hy, h⟩ := Except.bind_eq_ok.1 h
      obtain ⟨n, hn, h⟩ := Except.bind_eq_ok.1 h
      obtain ⟨i, rfl⟩ := Operand.number_of_floatFree ha hx
      obtain ⟨j, rfl⟩ := Operand.number_of_floatFree hb hy
      obtain ⟨k, rfl⟩ := Number.remainder_int hn
      cases h
      rfl
  | logNor =>
      obtain ⟨x, _, h⟩ := Except.bind_eq_ok.1 h
      obtain ⟨y, _, h⟩ := Except.bind_eq_ok.1 h
      cases h
      rfl

theorem VariadicOp.floatFree_apply {op : VariadicOp} {vs : List Value} {v : Value}
    (hvs : ∀ w ∈ vs, w.FloatFree) (h : op.apply vs = .ok v) : v.FloatFree := by
  cases vs with
  | nil => cases h
  | cons first rest =>
      obtain ⟨hfirst, hrest⟩ := List.forall_mem_cons.1 hvs
      cases op with
      | connective c =>
          cases h
          exact c.floatFree_apply hvs
      | equal | notEqual =>
          obtain ⟨a, _, h⟩ := Except.bind_eq_ok.1 h
          obtain ⟨ns, _, h⟩ := Except.bind_eq_ok.1 h
          cases h
          exact Value.floatFree_ofBool _
      | extremum e =>
          obtain ⟨a, ha, h⟩ := Except.bind_eq_ok.1 h
          obtain ⟨ns, hns, h⟩ := Except.bind_eq_ok.1 h
          obtain ⟨i, rfl⟩ := Operand.number_of_floatFree hfirst ha
          obtain ⟨ks, rfl⟩ := Operand.numbers_of_floatFree hrest hns
          obtain ⟨k, applied⟩ := e.apply_int i ks
          rw [applied] at h
          cases h
          rfl
      | arithmetic o =>
          obtain ⟨a, ha, h⟩ := Except.bind_eq_ok.1 h
          obtain ⟨ns, hns, h⟩ := Except.bind_eq_ok.1 h
          obtain ⟨n, hn, h⟩ := Except.bind_eq_ok.1 h
          obtain ⟨i, rfl⟩ := Operand.number_of_floatFree hfirst ha
          obtain ⟨ks, rfl⟩ := Operand.numbers_of_floatFree hrest hns
          rw [o.apply_int] at hn
          cases folded : ks.foldlM o.onInts i with
          | ok k =>
              rw [folded] at hn
              cases hn
              cases h
              rfl
          | error cause =>
              rw [folded] at hn
              cases hn
      | bitwise b =>
          obtain ⟨a, _, h⟩ := Except.bind_eq_ok.1 h
          obtain ⟨ns, _, h⟩ := Except.bind_eq_ok.1 h
          cases h
          rfl

theorem UnaryOp.floatFree_apply {op : UnaryOp} {v w : Value} {printer : Printer} (hv : v.FloatFree)
    (h : (op.apply v printer).1 = .ok w) : w.FloatFree := by
  cases op with
  | not =>
      cases h
      exact Value.floatFree_ofBool _
  | makeArray =>
      change MiniLisp.makeArray v = .ok w at h
      unfold MiniLisp.makeArray at h
      dsimp only at h
      split at h
      · cases h
      · split at h
        · cases h
        · split at h
          · next cells made =>
              unfold Cells.make? at made
              split at made
              · cases made
              · cases made
                cases h
                intro s mem
                rw [Cells.make, Array.mem_replicate] at mem
                rw [mem.2]
                rfl
          · cases h
  | print =>
      cases h
      exact hv

/-- No operation on values without floats makes a float. -/
theorem OperatorClosed.floatFree : OperatorClosed Value.FloatFree where
  nil := rfl
  int _ := rfl
  increment := by
    intro n m hn h
    obtain ⟨k, rfl⟩ := Number.eq_int hn
    unfold Number.increment at h
    dsimp only at h
    split at h
    · cases h
      rfl
    · cases h
  unary := UnaryOp.floatFree_apply
  binary := BinaryOp.floatFree_apply
  variadic := VariadicOp.floatFree_apply
  element h mem := h _ mem
  store {cells slot s} h hs := by
    intro other mem
    rcases Array.mem_or_eq_of_mem_set mem with old | rfl
    · exact h other old
    · exact hs

/-! ### Integer programs -/

/-- The type of the operand that an error reports. -/
def Cause.got? : Cause → Option String
  | typeMismatch _ _ got => some got
  | nonIntegerIndex got => some got
  | _ => none

/-- No literal in the expression is a float. -/
def Expr.FloatFree (e : Expr ν) : Prop := ∀ value, .literal value ∈ e.subterms → value.isFloat = false

/-- Values without floats, of which no error blames a float. -/
def Safety.floatFree : Safety where
  good := Value.FloatFree
  allowed cause := cause.got? ≠ some "float"
  closed := .floatFree
  operands {vs cause} hvs h := by
    cases cause with
    | typeMismatch operator expected got =>
        intro same
        obtain rfl : got = "float" := Option.some.inj same
        rcases h with same | ⟨v, mem, same⟩
        · exact absurd same (by decide)
        · exact (hvs v mem).typeName_ne same.symm
    | nonIntegerIndex got =>
        intro same
        obtain rfl : got = "float" := Option.some.inj same
        obtain ⟨v, mem, same⟩ := h
        exact (hvs v mem).typeName_ne same.symm
    | _ => nofun
  limit _ := nofun

theorem Safety.admits_floatFree (label : ν → String) {es : List (Expr ν)}
    (h : ∀ value, .literal value ∈ es → value.isFloat = false) :
    ∀ c ∈ es, Safety.floatFree.Admits label c := by
  intro c mem
  cases c with
  | literal value => exact h value mem
  | bind op x value =>
      cases op with
      | defvar => trivial
      | setq => exact nofun
  | _ => trivial

variable [DecidableEq ν]

/-- No function has a float among its literals. -/
def FunctionTable.FloatFree (functions : FunctionTable ν) : Prop :=
  ∀ f found, functions.get? f = some found →
    ∀ value, .literal value ∈ Expr.subtermsAll found.fn.body → value.isFloat = false

namespace Interpreter

/-- Where no binding of any scope and no literal is or holds a float, an evaluation leaves no float
in any scope, yields no float, and does not fail for meeting a float. -/
theorem eval_floatFree (label : ν → String) (interp : Interpreter ν) (scope : Nat) (e : Expr ν)
    (store : interp.store.Only Value.FloatFree) (functions : interp.functions.FloatFree)
    (literals : e.FloatFree) {out : Outcome (Interpreter ν) EvalError Value}
    (converges : Outcome.Converges (interp.eval label · scope e) out) :
    (∀ after, out.after? = some after → after.store.Only Value.FloatFree) ∧
    (∀ v after, out = .value v after → v.FloatFree) ∧
    ∀ err after, out = .error err after → err.cause.got? ≠ some "float" := by
  obtain ⟨-, fuel, rfl⟩ := converges
  exact (safe_eval .floatFree label fuel interp scope store
    (fun f found known => Safety.admits_floatFree label (functions f found known))
    (Safety.admits_floatFree label literals)).ends

/-- An array at the name 0, and a function 9 that adds the numbers up to its argument to the first
element. -/
def tally : Interpreter Nat where
  store := Store.new.setBindings 0 ⟨[(0, .array #[.int 5])]⟩
  functions := (FunctionTable.new.define ⟨9, [1],
    [.loopFor 2 (.literal (.int 1)) (.var 1)
      [.updateElement (.move .up) 0 (.literal (.int 0)) (.var 2)],
     .element 0 (.literal (.int 0))]⟩).2
  stack := CallStack.new none
  printer := .silent

/-- The counter, the element and the result stay integers. -/
theorem eval_floatFree_tally :
    let e := .call 9 [.literal (.int 3)]
    tally.store.Only Value.FloatFree ∧ tally.functions.FloatFree ∧ Expr.FloatFree e ∧
    ∃ after, tally.eval toString 9 0 e = .value (.int 11) after ∧
      after.store.Only Value.FloatFree := by
  intro e
  have store : tally.store.Only Value.FloatFree := by
    refine Store.Only.commit Store.only_new (c := .root _) (fun x v found => ?_) 0
    by_cases same : 0 = x
    · simp [Dictionary.get?, Dictionary.find, same] at found
      subst found
      simp [Value.FloatFree, Scalar.isFloat]
    · simp [Dictionary.get?, Dictionary.find, same] at found
  have functions : tally.functions.FloatFree := by
    intro f found known
    rw [tally, FunctionTable.get?_define] at known
    split at known
    · cases known
      simp [Expr.subtermsAll, Expr.subterms, Scalar.isFloat]
    · cases known
  have literals : Expr.FloatFree e := by
    simp [e, Expr.FloatFree, Expr.subterms, Expr.subtermsAll, Scalar.isFloat]
  have run : (tally.eval toString 9 0 e).value? = some (.int 11) := by decide +kernel
  obtain ⟨after, result⟩ := Outcome.value?_eq_some.1 run
  have converges : Outcome.Converges (tally.eval toString · 0 e) (.value (.int 11) after) :=
    .of_value result
  have safe := eval_floatFree toString tally 0 e store functions literals converges
  exact ⟨store, functions, literals, after, result, safe.1 after rfl⟩

end Interpreter

end MiniLisp
