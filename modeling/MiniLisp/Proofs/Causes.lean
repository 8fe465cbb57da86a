import MiniLisp.Eval.Call
import MiniLisp.Operator.Binary
import MiniLisp.Operator.Unary
import MiniLisp.Operator.Variadic
import MiniLisp.Scope.Place

/-!
Which errors come from operations. An operator, an operand check, a place or a parameter list that
fails blames the type of one of its operands, or no type at all (`Blames`). So the limit of active
calls comes from the call stack alone (`Blames.limitFree`).
-/

namespace MiniLisp

variable {ν α β : Type}

/-- The error that only a full call stack raises. -/
def Cause.IsLimit : Cause → Prop
  | recursionLimit _ => True
  | _ => False

/-- An operation whose error, if it fails, is not the limit of active calls. -/
def LimitFree (r : Except Cause α) : Prop := ∀ cause, r = .error cause → ¬cause.IsLimit

theorem LimitFree.ok (a : α) : LimitFree (.ok a) := nofun

theorem LimitFree.error {cause : Cause} (h : ¬cause.IsLimit) :
    LimitFree (.error cause : Except Cause α) := by
  intro c e
  cases e
  exact h

/-- The causes that an operation on these values can have. One that names the type of an operand names
the type of one of these values. A call that is refused and an assignment to a name that is not bound
are not of this kind. -/
def Cause.OfOperands (vs : List Value) : Cause → Prop
  | typeMismatch _ _ got => got = "negative integer" ∨ ∃ v ∈ vs, got = v.typeName
  | nonIntegerIndex got => ∃ v ∈ vs, got = v.typeName
  | recursionLimit _ => False
  | assignToUndefined _ => False
  | _ => True

/-- If the operation fails, the cause lies with these values. -/
def Blames (vs : List Value) (r : Except Cause α) : Prop :=
  ∀ cause, r = .error cause → cause.OfOperands vs

theorem Cause.not_isLimit_of_ofOperands {vs : List Value} :
    ∀ {cause : Cause}, cause.OfOperands vs → ¬cause.IsLimit
  | recursionLimit _, h => h.elim
  | undefinedVariable _, _ | undefinedFunction _, _ | assignToUndefined _, _
  | tooFewArguments _ _ _, _ | notAnArray _, _ | nonIntegerIndex _, _ | indexOutOfRange _ _, _
  | cannotAssignArrayElement, _ | arrayTooLarge _, _ | typeMismatch _ _ _, _
  | missingOperands _, _ | divisionByZero, _ | integerOverflow _, _ => id

theorem Cause.OfOperands.mono {vs ws : List Value} (sub : ∀ v ∈ vs, v ∈ ws) :
    ∀ {cause : Cause}, cause.OfOperands vs → cause.OfOperands ws
  | typeMismatch _ _ _, h => h.imp id fun ⟨v, mem, same⟩ => ⟨v, sub v mem, same⟩
  | nonIntegerIndex _, ⟨v, mem, same⟩ => ⟨v, sub v mem, same⟩
  | recursionLimit _, h | assignToUndefined _, h => h
  | undefinedVariable _, _ | undefinedFunction _, _ | tooFewArguments _ _ _, _ | notAnArray _, _
  | indexOutOfRange _ _, _ | cannotAssignArrayElement, _ | arrayTooLarge _, _
  | missingOperands _, _ | divisionByZero, _ | integerOverflow _, _ => trivial

namespace Blames

variable {vs ws : List Value}

theorem limitFree {r : Except Cause α} (h : Blames vs r) : LimitFree r :=
  fun cause failed => Cause.not_isLimit_of_ofOperands (h cause failed)

theorem ok (a : α) : Blames vs (.ok a) := nofun

theorem error {cause : Cause} (h : cause.OfOperands vs) :
    Blames vs (.error cause : Except Cause α) := by
  intro c e
  cases e
  exact h

theorem mono {r : Except Cause α} (sub : ∀ v ∈ vs, v ∈ ws) (h : Blames vs r) : Blames ws r :=
  fun cause failed => (h cause failed).mono sub

theorem bind {r : Except Cause α} {f : α → Except Cause β} (hr : Blames vs r)
    (hf : ∀ a, Blames vs (f a)) : Blames vs (r >>= f) := by
  cases r with
  | ok a => exact hf a
  | error cause => exact error (hr cause rfl)

/-- Each value may be blamed by its own check. -/
theorem mapM {f : Value → Except Cause β} (hf : ∀ v, Blames [v] (f v)) (vs : List Value) :
    Blames vs (vs.mapM f) := by
  induction vs with
  | nil => exact ok []
  | cons v rest ih =>
      rw [List.mapM_cons]
      have head : Blames (v :: rest) (f v) := (hf v).mono fun w mem => by
        rw [List.mem_singleton.1 mem]
        exact List.mem_cons_self
      exact head.bind fun b => (ih.mono fun w => List.mem_cons_of_mem v).bind fun bs => ok (b :: bs)

theorem foldlM {f : β → α → Except Cause β} (hf : ∀ b a, Blames vs (f b a)) (as : List α) (b : β) :
    Blames vs (as.foldlM f b) := by
  induction as generalizing b with
  | nil => exact ok b
  | cons a rest ih =>
      rw [List.foldlM_cons]
      exact (hf b a).bind fun b' => ih b'

end Blames

namespace Operand

theorem blames_number (symbol : String) (v : Value) : Blames [v] (number symbol v) := by
  unfold number
  split
  · exact .ok _
  · exact .error (.inr ⟨v, List.mem_singleton_self v, rfl⟩)

theorem blames_integer (symbol : String) (v : Value) : Blames [v] (integer symbol v) := by
  unfold integer
  split
  · exact .ok _
  · exact .error (.inr ⟨v, List.mem_singleton_self v, rfl⟩)

theorem blames_numbers (symbol : String) (vs : List Value) : Blames vs (numbers symbol vs) :=
  .mapM (blames_number symbol) vs

theorem blames_integers (symbol : String) (vs : List Value) : Blames vs (integers symbol vs) :=
  .mapM (blames_integer symbol) vs

end Operand

namespace Number

theorem blames_remainder (symbol : String) (a b : Number) : Blames [] (a.remainder symbol b) := by
  unfold remainder
  split
  · split
    · exact .error trivial
    · split
      · exact .ok _
      · exact .error trivial
  · exact .ok _

theorem blames_increment (a : Number) : Blames [] a.increment := by
  unfold increment
  split
  · split
    · exact .ok _
    · exact .error trivial
  · exact .ok _

end Number

theorem BinaryOp.blames_apply (op : BinaryOp) (left right : Value) :
    Blames [left, right] (op.apply left right) := by
  have hleft : ∀ v ∈ [left], v ∈ [left, right] := by simp
  have hright : ∀ v ∈ [right], v ∈ [left, right] := by simp
  have number := fun symbol =>
    And.intro ((Operand.blames_number symbol left).mono hleft)
      ((Operand.blames_number symbol right).mono hright)
  have integer := fun symbol =>
    And.intro ((Operand.blames_integer symbol left).mono hleft)
      ((Operand.blames_integer symbol right).mono hright)
  unfold apply
  split
  · exact (number _).1.bind fun a => (number _).2.bind fun b => .ok _
  · exact (number _).1.bind fun a => (number _).2.bind fun b =>
      ((a.blames_remainder _ b).mono (List.nil_subset _)).bind fun _ => .ok _
  · exact (number _).1.bind fun a => (number _).2.bind fun b =>
      ((a.blames_remainder _ b).mono (List.nil_subset _)).bind fun _ => .ok _
  · exact (integer _).1.bind fun a => (integer _).2.bind fun b => .ok _

namespace Arithmetic

theorem blames_onInts (op : Arithmetic) (a b : Int64) : Blames [] (op.onInts a b) := by
  unfold onInts
  dsimp only
  cases op with
  | add | sub | mul =>
      dsimp only
      split
      · exact .ok _
      · exact .error trivial
  | div =>
      dsimp only
      split
      · exact .error trivial
      · split
        · exact .ok _
        · exact .error trivial

theorem blames_apply (op : Arithmetic) (first : Number) (rest : List Number) :
    Blames [] (op.apply first rest) := by
  unfold apply
  split
  · exact (Blames.foldlM op.blames_onInts _ _).bind fun _ => .ok _
  · exact .ok _

end Arithmetic

theorem VariadicOp.blames_apply (op : VariadicOp) (vs : List Value) : Blames vs (op.apply vs) := by
  cases vs with
  | nil => exact .error trivial
  | cons first rest =>
      have hfirst : ∀ v ∈ [first], v ∈ first :: rest := by simp
      have hrest : ∀ v ∈ rest, v ∈ first :: rest := fun _ => List.mem_cons_of_mem first
      have number := fun symbol =>
        And.intro ((Operand.blames_number symbol first).mono hfirst)
          ((Operand.blames_numbers symbol rest).mono hrest)
      have integer := fun symbol =>
        And.intro ((Operand.blames_integer symbol first).mono hfirst)
          ((Operand.blames_integers symbol rest).mono hrest)
      cases op with
      | connective c => exact .ok _
      | equal | notEqual | extremum _ =>
          exact (number _).1.bind fun a => (number _).2.bind fun ns => .ok _
      | arithmetic o =>
          exact (number _).1.bind fun a => (number _).2.bind fun ns =>
            ((o.blames_apply a ns).mono (List.nil_subset _)).bind fun _ => .ok _
      | bitwise b => exact (integer _).1.bind fun a => (integer _).2.bind fun ns => .ok _

namespace Cells

theorem blames_slot? (cells : Array Scalar) (index : Int64) : Blames [] (slot? cells index) := by
  unfold slot?
  split
  · exact .ok _
  · exact .error trivial

theorem blames_get? (cells : Array Scalar) (index : Int64) : Blames [] (get? cells index) := by
  have free := blames_slot? cells index
  unfold get?
  split
  · exact .ok _
  · next cause found => exact .error (free cause found)

end Cells

theorem blames_makeArray (size : Value) : Blames [size] (makeArray size) := by
  unfold makeArray
  dsimp only
  split
  · exact .error (.inr ⟨size, List.mem_singleton_self size, rfl⟩)
  · split
    · exact .error (.inl rfl)
    · unfold Cells.make?
      split
      · exact .ok _
      · next h =>
          split at h
          · cases h
            exact .error trivial
          · cases h

theorem UnaryOp.blames_apply (op : UnaryOp) (v : Value) (printer : Printer) :
    Blames [v] (op.apply v printer).1 := by
  cases op with
  | not => exact .ok _
  | makeArray => exact blames_makeArray v
  | print => exact .ok _

namespace Place

theorem blames_readElement (name : String) (index : Int64) (v : Value) :
    Blames [] (readElement name index v) := by
  unfold readElement
  split
  · next cells =>
      have free := Cells.blames_get? cells index
      split
      · exact .ok _
      · next cause found => exact .error (free cause found)
  · exact .error trivial

theorem blames_storeElement (name : String) (index : Int64) (v stored : Value) :
    Blames [] (storeElement name index v stored).1 := by
  unfold storeElement
  split
  · next cells =>
      have free := Cells.blames_slot? cells index
      split
      · next cause found => exact .error (free cause found)
      · split
        · exact .ok _
        · exact .error trivial
  · exact .error trivial

end Place

theorem FunctionDef.blames_checkArity (label : ν → String) (fn : FunctionDef ν) (got : Nat) :
    Blames [] (fn.checkArity label got) := by
  unfold checkArity
  split
  · exact .error trivial
  · exact .ok _

end MiniLisp
