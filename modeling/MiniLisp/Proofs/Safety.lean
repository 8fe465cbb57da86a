import MiniLisp.Interpreter
import MiniLisp.Proofs.Act
import MiniLisp.Proofs.CallStack
import MiniLisp.Proofs.Store
import MiniLisp.Proofs.Subterms

/-!
What an evaluation never meets. A safety says which values are good and which causes of errors are
allowed; operations on good values yield good values or fail for allowed causes. Main statement: if all
bindings and literals are good, then an evaluation leaves good bindings only, yields a good value and
fails for allowed causes only (`Interpreter.safe_eval`).
-/

namespace MiniLisp

variable {ν σ ε α β : Type}

/-! ### Invariants of computations -/

/-- The outcome, if it is a value or an error, is of an allowed kind and leaves an allowed state. -/
inductive Outcome.Safe (I : σ → Prop) (P : α → Prop) (Q : ε → Prop) : Outcome σ ε α → Prop
  | value {a : α} {s : σ} : I s → P a → Safe I P Q (.value a s)
  | error {e : ε} {s : σ} : I s → Q e → Safe I P Q (.error e s)
  | exhausted : Safe I P Q .exhausted

/-- The computation has safe outcomes from all states in which the invariant holds. -/
def Run.Safe (I : σ → Prop) (P : α → Prop) (Q : ε → Prop) (x : Run σ ε α) : Prop :=
  ∀ s, I s → (x s).Safe I P Q

section Invariants

variable {I : σ → Prop} {P : α → Prop} {P' : β → Prop} {Q : ε → Prop}

theorem Outcome.Safe.exit {out : Outcome σ ε α} {leave : σ → σ}
    {mark : σ → ε → ε} {I' : σ → Prop} (h : out.Safe I P Q) (left : ∀ s, I s → I' (leave s))
    (marked : ∀ s e, Q e → Q (mark s e)) : (out.exit leave mark).Safe I' P Q := by
  cases h with
  | value hs ha => exact .value (left _ hs) ha
  | error hs he => exact .error (left _ hs) (marked _ _ he)
  | exhausted => exact .exhausted

theorem Outcome.Safe.ends {out : Outcome σ ε α} (h : out.Safe I P Q) :
    (∀ t, out.after? = some t → I t) ∧ (∀ a t, out = .value a t → P a) ∧
      ∀ e t, out = .error e t → Q e := by
  refine ⟨fun t ended => ?_, ?_, ?_⟩
  · cases h <;> cases ended <;> assumption
  · rintro a t rfl
    cases h with
    | value _ ha => exact ha
  · rintro e t rfl
    cases h with
    | error _ he => exact he

theorem Run.Safe.bind {x : Run σ ε α} {f : α → Run σ ε β} (hx : Run.Safe I P Q x)
    (hf : ∀ a, P a → Run.Safe I P' Q (f a)) : Run.Safe I P' Q (x >>= f) := by
  intro s hs
  rw [Run.bind_apply]
  have first := hx s hs
  generalize x s = out at first ⊢
  cases first with
  | value ht ha => exact hf _ ha _ ht
  | error ht he => exact .error ht he
  | exhausted => exact .exhausted

end Invariants

/-! ### Good scopes -/

variable [DecidableEq ν]

/-- All values that are bound are good. -/
def Bindings.Only (good : Value → Prop) (b : Bindings ν) : Prop := ∀ x v, b.get? x = some v → good v

/-- All values that are bound in some scope of the chain are good. -/
def Chain.Only (good : Value → Prop) : Chain ν → Prop
  | root b => b.Only good
  | child b parent => b.Only good ∧ parent.Only good

def Store.Only (good : Value → Prop) (store : Store ν) : Prop := ∀ t, (store.bindings t).Only good

section Scopes

variable {good : Value → Prop} {b : Bindings ν} {c : Chain ν} {x : ν} {v : Value}

theorem Bindings.Only.empty : Bindings.Only good (∅ : Bindings ν) := by
  intro x v found
  cases found

theorem Bindings.Only.set (h : Bindings.Only good b) (hv : good v) :
    Bindings.Only good (b.set x v) := by
  intro y w found
  rw [Dictionary.get?_set] at found
  split at found
  · cases found
    exact hv
  · exact h y w found

namespace Chain.Only

theorem lookup (h : c.Only good) (found : c.lookup x = some v) : good v := by
  induction c with
  | root b => exact h x v found
  | child b parent ih =>
      rw [Chain.lookup] at found
      split at found
      · next own =>
          cases found
          exact h.1 x v own
      · exact ih h.2 found

theorem define (h : c.Only good) (hv : good v) : (c.define x v).Only good := by
  cases c with
  | root b => exact Bindings.Only.set h hv
  | child b parent => exact ⟨h.1.set hv, h.2⟩

theorem replace (h : c.Only good) (hv : good v) : (c.replace x v).Only good := by
  induction c with
  | root b =>
      unfold Chain.replace
      split
      · exact Bindings.Only.set h hv
      · exact h
  | child b parent ih =>
      unfold Chain.replace
      split
      · exact ⟨h.1.set hv, h.2⟩
      · exact ⟨h.1, ih h.2⟩

theorem foldl_define (h : c.Only good) {arguments : List (ν × Value)}
    (hargs : ∀ a ∈ arguments, good a.2) :
    (arguments.foldl (fun c a => c.define a.1 a.2) c).Only good := by
  induction arguments generalizing c with
  | nil => exact h
  | cons a rest ih =>
      obtain ⟨first, others⟩ := List.forall_mem_cons.1 hargs
      exact ih (h.define first) others

theorem enter (h : c.Only good) : c.enter.Only good := ⟨.empty, h⟩

theorem leave (h : c.Only good) : c.leave.Only good := by
  cases c with
  | root b => exact h
  | child b parent => exact h.2

theorem rootBindings (h : c.Only good) : c.rootBindings.Only good := by
  induction c with
  | root b => exact h
  | child b parent ih => exact ih h.2

theorem withRoot (h : c.Only good) (hb : b.Only good) : (c.withRoot b).Only good := by
  induction c with
  | root _ => exact hb
  | child own parent ih => exact ⟨h.1, ih h.2⟩

end Chain.Only

end Scopes

section Places

variable {good : Value → Prop} (closed : OperatorClosed good) {label : ν → String} {place : Place ν}
  {c : Chain ν} {v w : Value}

include closed

theorem OperatorClosed.readElement {name : String} {index : Int64} (hv : good v)
    (found : Place.readElement name index v = .ok w) : good w := by
  unfold Place.readElement at found
  split at found
  · next cells =>
      split at found
      · next s read =>
          cases found
          unfold Cells.get? at read
          split at read
          · cases read
            exact closed.element hv (Array.getElem_mem _)
          · cases read
      · cases found
  · cases found

theorem OperatorClosed.storeElement {name : String} {index : Int64} (hv : good v) (hw : good w) :
    good (Place.storeElement name index v w).2 := by
  unfold Place.storeElement
  split
  · split
    · exact hw
    · split
      · exact closed.store hw hv
      · exact hw
  · exact hw

theorem Chain.Only.read (h : c.Only good) (found : place.read label c = .ok v) : good v := by
  cases place with
  | var x =>
      rw [Place.read] at found
      split at found
      · next known =>
          cases found
          exact h.lookup known
      · cases found
  | element x index =>
      rw [Place.read_element] at found
      split at found
      · next known => exact closed.readElement (h.lookup known) found
      · cases found

theorem Chain.Only.write (h : c.Only good) (hv : good v) : (place.write label v c).2.Only good := by
  cases place with
  | var x =>
      rw [Place.write_var]
      dsimp only
      split
      · exact h.replace hv
      · exact h.define hv
  | element x index =>
      rw [Place.write_element]
      split
      · next known => exact h.replace (closed.storeElement hv (h.lookup known))
      · exact h

end Places

/-! ### Safe evaluations -/

/-- Which values are good and which causes of errors are allowed. -/
structure Safety where
  good : Value → Prop
  allowed : Cause → Prop
  closed : OperatorClosed good
  operands : ∀ {vs : List Value} {cause : Cause}, (∀ v ∈ vs, good v) → cause.OfOperands vs →
    allowed cause
  limit : ∀ n, allowed (.recursionLimit n)

namespace Safety

variable (S : Safety)

/-- From good scopes, the computation ends in good scopes, with good values or an allowed cause. -/
def Safe [Carries α] (x : Eval ν α) : Prop :=
  Run.Safe (fun s => s.scopes.Only S.good) (Carries.Only S.good) (fun e => S.allowed e.cause) x

/-- A literal has to be good, and an assignment may only stand where its failure is allowed. -/
def Admits (label : ν → String) : Expr ν → Prop
  | .literal value => S.good (.scalar value)
  | .bind .setq x _ => S.allowed (.assignToUndefined (label x))
  | _ => True

variable {S} {cx : Context ν}

omit [DecidableEq ν] in
theorem allowed_raise (cx : Context ν) (stack : CallStack ν) {cause : Cause} (h : S.allowed cause) :
    S.allowed (cx.raise stack cause).cause := by
  rwa [cx.cause_raise]

theorem safe_pure [Carries α] {a : α} (ha : Carries.Only S.good a) :
    S.Safe (pure a : Eval ν α) := fun _ hs => .value hs ha

theorem safe_act [Carries α] {f : Chain ν → Printer → Except Cause α × Chain ν × Printer}
    (scopes : ∀ c p, c.Only S.good → (f c p).2.1.Only S.good)
    (results : ∀ c p, c.Only S.good → ∀ a, (f c p).1 = .ok a → Carries.Only S.good a)
    (causes : ∀ c p, c.Only S.good → ∀ cause, (f c p).1 = .error cause → S.allowed cause) :
    S.Safe (Eval.act cx f) := by
  intro s hs
  rw [Eval.act_apply]
  split
  · next a result => exact .value (scopes _ _ hs) (results _ _ hs a result)
  · next cause result =>
      exact .error (scopes _ _ hs) (allowed_raise cx _ (causes _ _ hs cause result))

theorem safe_readPlace (place : Place ν) : S.Safe (Eval.readPlace cx place) :=
  safe_act (f := fun c p => (place.read cx.label c, c, p)) (fun _ _ hc => hc)
    (fun _ _ hc _ found => Carries.only_value.2 (hc.read S.closed found))
    fun c _ _ cause failed =>
      S.operands (List.forall_mem_nil S.good) (place.blames_read cx.label c cause failed)

theorem safe_writePlace (place : Place ν) {v : Value} (hv : S.good v) :
    S.Safe (Eval.writePlace cx place v) := by
  refine safe_act (f := fun c p =>
    ((place.write cx.label v c).1, (place.write cx.label v c).2, p))
    (fun _ _ hc => hc.write S.closed hv) (fun c p _ w written => ?_) fun c _ _ cause failed =>
      S.operands (List.forall_mem_nil S.good) (place.blames_write cx.label v c cause failed)
  rw [Place.eq_of_write written]
  exact Carries.only_value.2 hv

theorem safe_unary (op : UnaryOp) {v : Value} (hv : S.good v) :
    S.Safe (Eval.unary cx op v : Eval ν Value) :=
  safe_act (f := fun c p => ((op.apply v p).1, c, (op.apply v p).2)) (fun _ _ hc => hc)
    (fun _ _ _ _ made => Carries.only_value.2 (S.closed.unary hv made))
    fun _ p _ cause failed =>
      S.operands (List.forall_mem_singleton.2 hv) (op.blames_apply v p cause failed)

theorem safe_define (x : ν) {v : Value} (hv : S.good v) : S.Safe (Eval.define x v) := fun _ hs =>
  .value (hs.define hv) Carries.only_unit

theorem safe_assign (x : ν) {v : Value} (hv : S.good v)
    (unbound : S.allowed (.assignToUndefined (cx.label x))) : S.Safe (Eval.assign cx x v) := by
  intro s hs
  unfold Eval.assign
  rw [Chain.assign?_eq]
  cases s.scopes.lookup x with
  | none => exact .error hs (allowed_raise cx s.stack unbound)
  | some old => exact .value (hs.replace hv) Carries.only_unit

theorem safe_inNewScope [Carries α] {x : Eval ν α} (h : S.Safe x) : S.Safe (Eval.inNewScope x) := by
  intro s hs
  rw [Eval.inNewScope_apply]
  exact (h _ hs.enter).exit (fun _ ht => ht.leave) fun _ _ => id

theorem safe_activate [Carries α] (f : ν) {arguments : List (ν × Value)} {x : Eval ν α}
    (hargs : ∀ a ∈ arguments, S.good a.2) (h : S.Safe x) :
    S.Safe (Eval.activate cx f arguments x) := by
  intro s hs
  rcases Eval.activate_cases cx f arguments x s with ⟨limit, -, -, refused⟩ | ⟨-, started⟩
  · rw [refused]
    exact .error hs (allowed_raise cx s.stack (S.limit limit))
  · rw [started]
    have callee : (Chain.child ∅ (.root s.scopes.rootBindings)).Only S.good :=
      ⟨.empty, hs.rootBindings⟩
    have inside : (s.enterCall (s.stack.entered f) arguments).scopes.Only S.good :=
      callee.foldl_define hargs
    refine (h _ inside).exit (fun t ht => hs.withRoot ht.rootBindings) fun t e he => ?_
    rwa [cx.cause_leave]

variable (S cx) in
/-- Safety as a relation that does not look at the second computation. -/
def logical : LogicalRelation cx cx Unit where
  rel _ _ _ x _ := S.Safe x
  good := S.good
  inner := id
  callee := id
  closed := S.closed
  labels := .refl cx
  exhausted _ _ _ _ _ _ := .exhausted
  pure _ _ _ _ ha := safe_pure ha
  bind _ _ _ _ _ _ _ _ _ hx hf := hx.bind hf
  fail _ _ _ _ _ hvs h := fun s hs => .error hs (allowed_raise cx s.stack (S.operands hvs h))
  inNewScope _ _ _ _ _ h := safe_inNewScope h
  activate _ _ _ f _ _ _ hargs h := safe_activate f hargs h

theorem operates {e : Expr ν} (h : S.Admits cx.label e) : (S.logical cx).Operates () e := by
  have update : ∀ op place v, S.good v → S.Safe (Eval.update cx op place v) := fun op place v hv =>
    LogicalRelation.update (L := S.logical cx) (i := ()) op hv (safe_readPlace place)
      fun w hw => safe_writePlace place hw
  cases e with
  | literal value => exact h
  | var x => exact safe_readPlace _
  | element x index => exact fun n => safe_readPlace _
  | unary op operand => exact fun v hv => safe_unary op hv
  | bind op x value =>
      intro v hv
      cases op with
      | defvar => exact (safe_define x hv).bind fun _ _ => safe_pure (Carries.only_value.2 hv)
      | setq => exact (safe_assign x hv h).bind fun _ _ => safe_pure (Carries.only_value.2 hv)
  | update op x value => exact fun v hv => update op _ v hv
  | updateElement op x index value => exact fun n v hv => update op _ v hv
  | loopFor x first last stmts => exact fun v hv => safe_define x hv
  | dotimes x count stmts => exact fun v hv => safe_define x hv
  | _ => trivial

/-- The bodies of all functions are admitted. -/
def AdmitsAll (S : Safety) (label : ν → String) (functions : FunctionTable ν) : Prop :=
  ∀ f found, functions.get? f = some found → ∀ c ∈ Expr.subtermsAll found.fn.body, S.Admits label c

theorem safe_eval (functions : S.AdmitsAll cx.label cx.functions) (fuel : Nat) {e : Expr ν}
    (admitted : ∀ c ∈ e.subterms, S.Admits cx.label c) : S.Safe (eval cx fuel e) := by
  have conditions : (S.logical cx).Local (S.Admits cx.label) := by
    refine ⟨fun _ e => operates, fun f args _ => ?_⟩
    cases known : cx.functions.get? f with
    | none => exact .none
    | some found => exact .some ⟨rfl, functions f found known⟩
  exact conditions.eval () (Nat.le_refl fuel) admitted

end Safety

theorem Store.only_new {good : Value → Prop} : Store.Only good (Store.new : Store ν) := by
  intro t x v found
  cases t with
  | zero => cases found
  | succ t => cases found

theorem Store.Only.commit {good : Value → Prop} {store : Store ν} (h : store.Only good) {c : Chain ν}
    (hc : c.Only good) (i : Nat) : (store.commit i c).Only good := by
  have own : ∀ (store : Store ν) i b, store.Only good → b.Only good →
      (store.setBindings i b).Only good := by
    intro store i b h hb t
    by_cases same : i = t
    · subst same
      by_cases bound : i < store.size
      · rw [store.bindings_setBindings_self bound]
        exact hb
      · rw [store.setBindings_of_ge (Nat.le_of_not_lt bound)]
        exact h i
    · rw [store.bindings_setBindings_of_ne same]
      exact h t
  induction c generalizing store i with
  | root b => exact own store i b h hc
  | child b outer ih =>
      unfold Store.commit
      split
      · exact ih (own store i b h hc.1) hc.2 _
      · exact own store i b h hc.1

theorem Store.Only.view {good : Value → Prop} {store : Store ν} (h : store.Only good) (i : Nat) :
    (store.view i).Only good := by
  induction i using store.parent_induction with
  | root i hroot =>
      rw [store.view_of_root hroot]
      exact h i
  | child i p hparent ih =>
      rw [store.view_of_parent hparent]
      exact ⟨h i, ih⟩

/-- If all bindings are good, and the expression and the bodies of all functions are admitted, then
an evaluation leaves good bindings, yields a good value and only fails for allowed causes. -/
theorem Interpreter.safe_eval (S : Safety) (label : ν → String) (fuel : Nat) (interp : Interpreter ν)
    (scope : Nat) {e : Expr ν} (store : interp.store.Only S.good)
    (functions : S.AdmitsAll label interp.functions)
    (admitted : ∀ c ∈ e.subterms, S.Admits label c) :
    (interp.eval label fuel scope e).Safe (fun after => after.store.Only S.good) S.good
      fun err => S.allowed err.cause := by
  have bodies : S.AdmitsAll (interp.context label).label (interp.context label).functions := functions
  have ends := S.safe_eval bodies fuel admitted (interp.load scope) (Store.Only.view store scope)
  unfold Interpreter.eval Interpreter.run
  generalize MiniLisp.eval (interp.context label) fuel e (interp.load scope) = out at ends
  cases ends with
  | value scopes hv => exact .value (Store.Only.commit store scopes scope) (Carries.only_value.1 hv)
  | error scopes he => exact .error (Store.Only.commit store scopes scope) he
  | exhausted => exact .exhausted

end MiniLisp
