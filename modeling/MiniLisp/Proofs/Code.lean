import MiniLisp.Proofs.Locality
import MiniLisp.Proofs.Subterms

/-!
The code behind an expression: its subterms, and those of the functions it calls, which call further
ones. An evaluation depends on no names but those in its code (`follows_eval_mentioned`), and changes
no names but the targets in its code (`within_eval_written`); a new scope or call takes away what was
bound in it.
-/

namespace MiniLisp

variable {ν α : Type}

namespace Expr

/-- The variable that the outermost form reads or binds. -/
def var? : Expr ν → Option ν
  | .var x => some x
  | .element x _ => some x
  | .bind _ x _ => some x
  | .update _ x _ => some x
  | .updateElement _ x _ _ => some x
  | .loopFor x _ _ _ => some x
  | .dotimes x _ _ => some x
  | _ => none

/-- All variables in the text. -/
def vars (e : Expr ν) : List ν := e.subterms.filterMap var?

theorem mem_vars {x : ν} {e : Expr ν} :
    x ∈ e.vars ↔ e.var? = some x ∨ ∃ d ∈ e.parts, x ∈ d.vars := by
  constructor
  · intro h
    obtain ⟨c, mem, named⟩ := List.mem_filterMap.1 h
    rcases mem_subterms.1 mem with rfl | ⟨d, part, inside⟩
    · exact .inl named
    · exact .inr ⟨d, part, List.mem_filterMap.2 ⟨c, inside, named⟩⟩
  · rintro (named | ⟨d, part, h⟩)
    · exact List.mem_filterMap.2 ⟨e, e.self_mem_subterms, named⟩
    · obtain ⟨c, inside, named⟩ := List.mem_filterMap.1 h
      exact List.mem_filterMap.2 ⟨c, mem_subterms_of_mem_parts part inside, named⟩

theorem mem_targetsAll {x : ν} {es : List (Expr ν)} : x ∈ targetsAll es ↔ ∃ e ∈ es, x ∈ e.targets := by
  induction es with
  | nil => simp [targetsAll]
  | cons e rest ih => simp [targetsAll, ih]

/-- Targets are variables of the text. -/
theorem mem_vars_of_mem_targets {x : ν} {e : Expr ν} (h : x ∈ e.targets) : x ∈ e.vars := by
  induction e using parts_induction with
  | step e ih =>
      have inside : (∃ d ∈ e.parts, x ∈ d.targets) → x ∈ e.vars := fun ⟨d, mem, target⟩ =>
        mem_vars.2 (.inr ⟨d, mem, ih d mem target⟩)
      cases e with
      | bind op y value | update op y value =>
          rcases List.mem_cons.1 h with rfl | h
          · exact mem_vars.2 (.inl rfl)
          · exact inside ⟨value, by simp [parts], h⟩
      | updateElement op y index value =>
          rcases List.mem_cons.1 h with rfl | h
          · exact mem_vars.2 (.inl rfl)
          · exact inside (by simpa [parts] using h)
      | literal _ | var _ => cases h
      | _ => exact inside (by simpa [parts, targets, mem_targetsAll, or_assoc] using h)

end Expr

variable [DecidableEq ν]

namespace FunctionTable

variable (functions : FunctionTable ν) (e : Expr ν)

/-- The forms that an evaluation may come to: subterms of the expression, and of the bodies of the
functions that such forms call. -/
inductive Code : Expr ν → Prop
  | own {c : Expr ν} : c ∈ e.subterms → Code c
  | called {f : ν} {args : List (Expr ν)} {found : Definition ν} {c : Expr ν} : Code (.call f args) →
      functions.get? f = some found → c ∈ Expr.subtermsAll found.fn.body → Code c

/-- The name is that of a variable in the code, or of a parameter of a function that the code calls. -/
def Mentions (x : ν) : Prop :=
  (∃ c, functions.Code e c ∧ x ∈ c.vars) ∨
    ∃ f args found, functions.Code e (.call f args) ∧ functions.get? f = some found ∧
      x ∈ found.fn.params

/-- The name is a target in the code. -/
def Writes (x : ν) : Prop := ∃ c, functions.Code e c ∧ x ∈ c.targets

/-- Nothing in the code prints. -/
def Silent : Prop := ∀ operand, ¬functions.Code e (.unary .print operand)

variable {functions e}

theorem Writes.mentions {x : ν} (h : functions.Writes e x) : functions.Mentions e x := by
  obtain ⟨c, code, target⟩ := h
  exact .inl ⟨c, code, Expr.mem_vars_of_mem_targets target⟩

theorem Code.mentions {c : Expr ν} {x : ν} (code : functions.Code e c) (named : c.var? = some x) :
    functions.Mentions e x := .inl ⟨c, code, Expr.mem_vars.2 (.inl named)⟩

/-- Forms that include the expression and, for each call in them, the body of the called function,
include the code. -/
theorem Code.mem {cs : List (Expr ν)} (own : ∀ c ∈ e.subterms, c ∈ cs)
    (called : ∀ f args found, .call f args ∈ cs → functions.get? f = some found →
      ∀ c ∈ Expr.subtermsAll found.fn.body, c ∈ cs) {c : Expr ν} (code : functions.Code e c) :
    c ∈ cs := by
  induction code with
  | own mem => exact own _ mem
  | called _ known mem ih => exact called _ _ _ ih known _ mem

/-- The bodies of called functions are code, so a relation is only needed for operations. -/
theorem local_code {cx : Context ν} {ι : Type} {L : LogicalRelation cx cx ι} {e : Expr ν}
    (operates : ∀ i c, cx.functions.Code e c → L.Operates i c) : L.Local (cx.functions.Code e) := by
  refine ⟨operates, fun f args code => ?_⟩
  cases known : cx.functions.get? f with
  | none => exact .none
  | some found => exact .some ⟨rfl, fun c mem => .called code known mem⟩

end FunctionTable

/-! ### What an evaluation depends on -/

section Reads

variable {names : ν → Prop} {cx : Context ν}

variable (names cx) in
/-- Evaluations from states that agree on some names. -/
def LogicalRelation.reads : LogicalRelation cx cx Unit where
  rel _ _ _ := Run.Follows (State.AgreeFor names)
  good _ := True
  inner := id
  callee := id
  closed := .everything
  labels := .refl cx
  exhausted _ _ _ _ _ _ _ := .exhausted
  pure _ _ _ _ _ _ _ h := .value h
  bind _ _ _ _ _ _ _ _ _ hx hf := hx.bind fun a => hf a fun _ _ => trivial
  fail _ _ _ _ cause _ _ := Eval.follows_result State.AgreeFor.alike (.error cause)
  inNewScope _ _ _ _ _ h := Eval.follows_inNewScope h
  activate _ _ _ f arguments _ _ _ h := Eval.follows_activate_agreeing f arguments h

theorem LogicalRelation.operates_reads {c : Expr ν} (named : ∀ x, c.var? = some x → names x) :
    (reads names cx).Operates () c := by
  have update : ∀ op {place : Place ν} v, Place.Corresponds (.on names) place place →
      Run.Follows (State.AgreeFor names) (Eval.update cx op place v) (Eval.update cx op place v) :=
    fun op _ v self => LogicalRelation.update (L := reads names cx) (i := ()) op trivial
      (Eval.follows_readPlace self) fun w _ => Eval.follows_writePlace self w
  cases c with
  | literal value => trivial
  | var x => exact Eval.follows_readPlace (.var (Correspondence.on_self (named x rfl)))
  | element x index =>
      exact fun n => Eval.follows_readPlace (.element (Correspondence.on_self (named x rfl)) n)
  | unary op operand => exact fun v _ => Eval.follows_unary op v
  | bind op x value =>
      intro v _
      cases op with
      | defvar => exact (Eval.follows_define x v).bind fun _ _ _ h => .value h
      | setq => exact (Eval.follows_assign (named x rfl) v).bind fun _ _ _ h => .value h
  | update op x value => exact fun v _ => update op v (.var (Correspondence.on_self (named x rfl)))
  | updateElement op x index value =>
      exact fun n v _ => update op v (.element (Correspondence.on_self (named x rfl)) n)
  | loopFor x first last stmts => exact fun v _ => Eval.follows_define x v
  | dotimes x count stmts => exact fun v _ => Eval.follows_define x v
  | _ => trivial

/-- From states that agree on all names in its code, an evaluation goes the same way. -/
theorem follows_eval_mentioned (cx : Context ν) (fuel : Nat) (e : Expr ν) :
    Run.Follows (State.AgreeFor (cx.functions.Mentions e)) (eval cx fuel e) (eval cx fuel e) := by
  have conditions := FunctionTable.local_code (e := e)
    (L := LogicalRelation.reads (cx.functions.Mentions e) cx)
    fun _ c code => LogicalRelation.operates_reads fun x named => code.mentions named
  exact conditions.eval () (Nat.le_refl fuel) fun c mem => .own mem

end Reads

/-! ### What an evaluation changes -/

/-- The scopes only change in some names, and the current one also in fresh ones. Nothing is
printed. -/
structure State.Changes (names fresh : ν → Prop) (s t : State ν) : Prop where
  scopes : Chain.Moves names names fresh s.scopes t.scopes
  printer : t.printer = s.printer

section Writes

variable {names fresh : ν → Prop} {cx : Context ν}

theorem State.Changes.refl (s : State ν) : Changes names fresh s s := ⟨.refl _, rfl⟩

theorem State.Changes.trans {s t u : State ν} (h : Changes names fresh s t)
    (h' : Changes names fresh t u) : Changes names fresh s u :=
  ⟨h.scopes.trans h'.scopes, h'.printer.trans h.printer⟩

namespace Eval

theorem changes_readPlace (place : Place ν) :
    Run.Within (State.Changes names fresh) (readPlace cx place) := within_ofExcept cx _ .refl

theorem changes_writePlace {place : Place ν} {v : Value}
    (h : ∀ c, Chain.Moves names names fresh c (place.write cx.label v c).2) :
    Run.Within (State.Changes names fresh) (writePlace cx place v) :=
  within_ofExcept cx _ fun s => ⟨h s.scopes, rfl⟩

theorem changes_define {x : ν} (hx : fresh x) (v : Value) :
    Run.Within (State.Changes names fresh) (define x v) := by
  rintro s _ ⟨⟩
  exact ⟨.define v hx _, rfl⟩

theorem changes_assign {x : ν} (hx : names x) (v : Value) :
    Run.Within (State.Changes names fresh) (assign cx x v) := by
  rw [assign_eq_act]
  refine .act cx fun s => ?_
  rw [Chain.assign?_eq]
  cases s.scopes.lookup x with
  | none => exact .refl s
  | some old => exact ⟨.replace v hx _, rfl⟩

theorem changes_unary {op : UnaryOp} (silent : op ≠ .print) (v : Value) :
    Run.Within (State.Changes names fresh) (unary cx op v) := by
  refine within_ofExcept cx (fun s => (op.apply v s.printer).1) fun s => ⟨.refl _, ?_⟩
  cases op with
  | not => rfl
  | makeArray => rfl
  | print => exact absurd rfl silent

end Eval

variable (names cx) in
/-- Evaluations that change some names at most, and more only in scopes of their own. -/
def LogicalRelation.changes :
    LogicalRelation cx cx { fresh : ν → Prop // ∀ x, names x → fresh x } where
  rel i _ _ x _ := Run.Within (State.Changes names i.1) x
  good _ := True
  inner _ := ⟨fun _ => True, fun _ _ => trivial⟩
  callee _ := ⟨fun _ => True, fun _ _ => trivial⟩
  closed := .everything
  labels := .refl cx
  exhausted _ _ _ _ := .exhausted
  pure _ _ _ a _ := .pure .refl a
  bind _ _ _ _ _ _ _ _ _ hx hf := .bind .trans hx fun a => hf a fun _ _ => trivial
  fail _ _ _ _ cause _ _ := Eval.within_ofExcept cx (fun _ => .error cause) .refl
  inNewScope _ _ _ _ _ h := .inNewScope h fun _ _ inside => ⟨inside.scopes.leave, inside.printer⟩
  activate _ _ _ f arguments _ _ _ h := .activate cx f arguments h .refl fun _ _ _ inside =>
    ⟨inside.scopes.leaveCall, inside.printer⟩

theorem LogicalRelation.operates_changes (i : { fresh : ν → Prop // ∀ x, names x → fresh x })
    {c : Expr ν} (written : ∀ x ∈ c.targets, names x) (silent : ∀ operand, c ≠ .unary .print operand) :
    (changes names cx).Operates i c := by
  have update : ∀ op {place : Place ν} v,
      (∀ w c, Chain.Moves names names i.1 c (place.write cx.label w c).2) →
      Run.Within (State.Changes names i.1) (Eval.update cx op place v) := fun op _ v moves =>
    LogicalRelation.update (L := changes names cx) (i := i) op trivial
      (Eval.changes_readPlace _) fun w _ => Eval.changes_writePlace (moves w)
  cases c with
  | literal value => trivial
  | var x => exact Eval.changes_readPlace _
  | element x index => exact fun n => Eval.changes_readPlace _
  | unary op operand =>
      refine fun v _ => Eval.changes_unary ?_ v
      rintro rfl
      exact silent operand rfl
  | bind op x value =>
      have hx := written x List.mem_cons_self
      intro v _
      cases op with
      | defvar => exact .bind .trans (Eval.changes_define (i.2 x hx) v) fun _ => .pure .refl v
      | setq => exact .bind .trans (Eval.changes_assign hx v) fun _ => .pure .refl v
  | update op x value =>
      have hx := written x List.mem_cons_self
      exact fun v _ => update op v fun w c => .write_var cx.label w hx (i.2 x hx) c
  | updateElement op x index value =>
      have hx := written x List.mem_cons_self
      exact fun n v _ => update op v fun w c => .write_element cx.label n w hx c
  | loopFor x first last stmts => exact fun v _ => Eval.changes_define trivial v
  | dotimes x count stmts => exact fun v _ => Eval.changes_define trivial v
  | _ => trivial

/-- An evaluation whose code does not print changes the targets in its code, and nothing else. -/
theorem within_eval_written (cx : Context ν) (fuel : Nat) {e : Expr ν}
    (silent : cx.functions.Silent e) :
    Run.Within (State.Changes (cx.functions.Writes e) (cx.functions.Writes e)) (eval cx fuel e) := by
  have conditions := FunctionTable.local_code (e := e)
    (L := LogicalRelation.changes (cx.functions.Writes e) cx) fun i c code =>
      LogicalRelation.operates_changes i (fun x target => ⟨c, code, target⟩) fun operand same =>
        silent operand (same ▸ code)
  exact conditions.eval ⟨cx.functions.Writes e, fun _ => id⟩ (Nat.le_refl fuel) fun c mem => .own mem

end Writes

end MiniLisp
