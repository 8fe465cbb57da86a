import MiniLisp.Proofs.CallStack
import MiniLisp.Proofs.Correspondence
import MiniLisp.Proofs.Footprint

/-!
What an evaluation may depend on. Two interpreters whose bindings agree along the path of a scope
evaluate under it alike and keep agreeing there; a call with literal arguments depends on the root of
the path alone (`Interpreter.eval_local`).
-/

namespace MiniLisp

variable {ν α : Type}

theorem Chain.rootBindings_withRoot (c : Chain ν) (b : Bindings ν) :
    (c.withRoot b).rootBindings = b := by
  induction c with
  | root _ => rfl
  | child _ _ ih => exact ih

theorem Store.rootBindings_view (store : Store ν) (i : Nat) :
    (store.view i).rootBindings = store.bindings (store.rootOf i) := by
  induction i using store.parent_induction with
  | root i hroot =>
      rw [store.view_of_root hroot, store.rootOf_of_root hroot]
      rfl
  | child i p hparent ih =>
      rw [store.view_of_parent hparent, store.rootOf_of_parent hparent]
      exact ih

namespace State

/-- The active calls, their limit and the printer are the same. -/
structure Alike (s t : State ν) : Prop where
  frames : t.stack.frames = s.stack.frames
  limit : t.stack.limit = s.stack.limit
  printer : t.printer = s.printer

variable {s t : State ν}

theorem Alike.raise_eq (h : s.Alike t) (cx : Context ν) (cause : Cause) :
    cx.raise t.stack cause = cx.raise s.stack cause := by
  unfold Context.raise
  rw [CallStack.stamp_congr h.frames]

theorem Alike.leave_eq (h : s.Alike t) (cx : Context ν) (e : EvalError) :
    cx.leave t.stack e = cx.leave s.stack e := by
  unfold Context.leave
  rw [CallStack.attach_congr h.frames]

theorem Alike.depth_eq (h : s.Alike t) : t.stack.depth = s.stack.depth :=
  congrArg List.length h.frames

theorem Alike.leaveCall {after after' : State ν} (h : after.Alike after') :
    (s.leaveCall after).Alike (t.leaveCall after') := by
  refine ⟨?_, ?_, h.printer⟩
  · unfold State.leaveCall
    cases hframes : after.stack.frames with
    | nil => simp only [CallStack.pop, hframes, h.frames]
    | cons f rest =>
        rw [CallStack.frames_pop hframes, CallStack.frames_pop (h.frames.trans hframes)]
  · exact (after'.stack.limit_pop.trans h.limit).trans after.stack.limit_pop.symm

end State

namespace Eval

variable {S : State ν → State ν → Prop} {cx : Context ν}

theorem follows_ofExcept (alike : ∀ {s t}, S s t → s.Alike t) {r : State ν → Except Cause α}
    {next : State ν → State ν}
    (h : ∀ s t, S s t → r t = r s ∧ S (next s) (next t)) :
    Run.Follows S (fun s => ofExcept cx (r s) (next s)) fun s => ofExcept cx (r s) (next s) := by
  intro s t related
  obtain ⟨same, after⟩ := h s t related
  dsimp only
  rw [same]
  cases r s with
  | ok a => exact .value after
  | error cause =>
      unfold ofExcept
      dsimp only
      rw [(alike after).raise_eq cx cause]
      exact .error after

theorem follows_result (alike : ∀ {s t}, S s t → s.Alike t) (r : Except Cause α) :
    Run.Follows S (ofExcept cx r) (ofExcept cx r) :=
  follows_ofExcept alike fun _ _ h => ⟨@rfl _ r, h⟩

end Eval

variable [DecidableEq ν]

/-- The same names mean the same values. -/
def Bindings.Agree (b d : Bindings ν) : Prop := ∀ x, d.get? x = b.get? x

/-- Some names stand for themselves. -/
def Correspondence.on (names : ν → Prop) : Correspondence ν ν where
  names x y := x = y ∧ names x
  bindings b d := ∀ x, names x → d.get? x = b.get? x
  empty _ _ := rfl
  get?_eq := by
    rintro b d x _ h ⟨rfl, hx⟩
    exact h x hx
  set := by
    rintro b d x _ h ⟨rfl, -⟩ v y hy
    rw [Dictionary.get?_set, Dictionary.get?_set, h y hy]

theorem Correspondence.on_self {names : ν → Prop} {x : ν} (h : names x) :
    (on names).names x x := ⟨rfl, h⟩

/-- Binding a name alike keeps an agreement, whatever the name is. -/
theorem Chain.Corresponds.define_any {names : ν → Prop} {c d : Chain ν}
    (h : Corresponds (.on names) c d) (x : ν) (v : Value) :
    Corresponds (.on names) (c.define x v) (d.define x v) := by
  have set : ∀ {b b' : Bindings ν}, (Correspondence.on names).bindings b b' →
      (Correspondence.on names).bindings (b.set x v) (b'.set x v) := by
    intro b b' same y hy
    rw [Dictionary.get?_set, Dictionary.get?_set, same y hy]
  cases h with
  | root same => exact .root (set same)
  | child same outer => exact .child (set same) outer

theorem Chain.Corresponds.foldl_define_any {names : ν → Prop} {c d : Chain ν}
    (h : Corresponds (.on names) c d) (arguments : List (ν × Value)) :
    Corresponds (.on names) (arguments.foldl (fun c a => c.define a.1 a.2) c)
      (arguments.foldl (fun c a => c.define a.1 a.2) d) := by
  induction arguments generalizing c d with
  | nil => exact h
  | cons a rest ih => exact ih (h.define_any a.1 a.2)

theorem Place.corresponds_self (place : Place ν) :
    Place.Corresponds (.on fun _ => True) place place := by
  cases place with
  | var x => exact .var (Correspondence.on_self trivial)
  | element x index => exact .element (Correspondence.on_self trivial) index

namespace State

/-- Moreover, the scopes agree in some names. -/
structure AgreeFor (names : ν → Prop) (s t : State ν) : Prop where
  alike : s.Alike t
  scopes : Chain.Corresponds (.on names) s.scopes t.scopes

/-- The scopes agree in all names. -/
abbrev Agree (s t : State ν) : Prop := AgreeFor (fun _ => True) s t

/-- The states agree in their roots; the other scopes may differ in anything. -/
structure RootAgree (s t : State ν) : Prop where
  alike : s.Alike t
  root : Bindings.Agree s.scopes.rootBindings t.scopes.rootBindings

variable {names : ν → Prop} {s t : State ν}

theorem AgreeFor.withScopes (h : AgreeFor names s t) {c d : Chain ν}
    (scopes : Chain.Corresponds (.on names) c d) :
    AgreeFor names { s with scopes := c } { t with scopes := d } :=
  ⟨⟨h.alike.frames, h.alike.limit, h.alike.printer⟩, scopes⟩

/-- The body of a call sees nothing of the caller but the root. -/
theorem Alike.enterCall (h : s.Alike t) (f : ν) (arguments : List (ν × Value))
    (root : (Correspondence.on names).bindings s.scopes.rootBindings t.scopes.rootBindings) :
    AgreeFor names (s.enterCall (s.stack.entered f) arguments)
      (t.enterCall (t.stack.entered f) arguments) where
  alike := ⟨congrArg (f :: ·) h.frames, h.limit, h.printer⟩
  scopes := Chain.Corresponds.foldl_define_any
    (.child (Correspondence.on names).empty (.root root)) arguments

theorem AgreeFor.leaveCall (h : AgreeFor names s t) {after after' : State ν}
    (inside : AgreeFor names after after') :
    AgreeFor names (s.leaveCall after) (t.leaveCall after') :=
  ⟨inside.alike.leaveCall, h.scopes.withRoot inside.scopes.rootBindings⟩

end State

namespace Eval

variable {S : State ν → State ν → Prop} {cx : Context ν}

/-- A call goes the same way from related states, if its body does. -/
theorem follows_activate {S' : State ν → State ν → Prop} (f : ν) (arguments : List (ν × Value))
    {x y : Eval ν α} (h : Run.Follows S' x y) (alike : ∀ {s t}, S s t → s.Alike t)
    (alike' : ∀ {s t}, S' s t → s.Alike t)
    (enter : ∀ {s t}, S s t → S' (s.enterCall (s.stack.entered f) arguments)
      (t.enterCall (t.stack.entered f) arguments))
    (leave : ∀ {s t after after'}, S s t → S' after after' →
      S (s.leaveCall after) (t.leaveCall after')) :
    Run.Follows S (activate cx f arguments x) (activate cx f arguments y) := by
  intro s t related
  have same := alike related
  rcases activate_cases cx f arguments x s with ⟨limit, hlimit, full, refused⟩ | ⟨room, started⟩
  · have full' : limit ≤ t.stack.depth := by rwa [same.depth_eq]
    rw [refused, activate_of_full cx f arguments y (same.limit.trans hlimit) full', same.raise_eq]
    exact .error related
  · have room' : ∀ limit, t.stack.limit = some limit → t.stack.depth < limit := by
      rwa [same.limit, same.depth_eq]
    rw [started, activate_of_room cx f arguments y room']
    exact (h _ _ (enter related)).exit (fun _ _ after => leave related after)
      fun _ _ e after => (alike' after).leave_eq cx e

/-! Operations on names in which the states agree. -/

section Names

variable {names : ν → Prop}

theorem follows_unary (op : UnaryOp) (v : Value) :
    Run.Follows (State.AgreeFor names) (unary cx op v) (unary cx op v) := by
  refine follows_ofExcept State.AgreeFor.alike fun s t h => ?_
  rw [h.alike.printer]
  exact ⟨rfl, ⟨h.alike.frames, h.alike.limit, rfl⟩, h.scopes⟩

theorem follows_define (x : ν) (v : Value) :
    Run.Follows (State.AgreeFor names) (define x v) (define x v) := fun _ _ h =>
  .value (h.withScopes (h.scopes.define_any x v))

theorem follows_readPlace {place : Place ν} (named : Place.Corresponds (.on names) place place) :
    Run.Follows (State.AgreeFor names) (readPlace cx place) (readPlace cx place) :=
  follows_ofExcept State.AgreeFor.alike fun _ _ h =>
    ⟨named.read_eq (fun _ _ same => congrArg cx.label same.1.symm) h.scopes, h⟩

theorem follows_writePlace {place : Place ν} (named : Place.Corresponds (.on names) place place)
    (v : Value) :
    Run.Follows (State.AgreeFor names) (writePlace cx place v) (writePlace cx place v) := by
  refine follows_ofExcept State.AgreeFor.alike fun s t h => ?_
  obtain ⟨same, written⟩ := named.write (fun _ _ same => congrArg cx.label same.1.symm) h.scopes v
  exact ⟨same, h.withScopes written⟩

theorem follows_assign {x : ν} (hx : names x) (v : Value) :
    Run.Follows (State.AgreeFor names) (assign cx x v) (assign cx x v) := by
  intro s t h
  have self := Correspondence.on_self hx
  unfold assign
  rw [Chain.assign?_eq, Chain.assign?_eq, h.scopes.lookup_eq self, h.alike.raise_eq]
  cases s.scopes.lookup x with
  | none => exact .error h
  | some old => exact .value (h.withScopes (h.scopes.replace self v))

theorem follows_inNewScope {x y : Eval ν α} (h : Run.Follows (State.AgreeFor names) x y) :
    Run.Follows (State.AgreeFor names) (inNewScope x) (inNewScope y) := by
  intro s t related
  rw [inNewScope_apply, inNewScope_apply]
  exact (h _ _ (related.withScopes related.scopes.enter)).exit
    (fun _ _ after => after.withScopes after.scopes.leave) fun _ _ _ _ => rfl

theorem follows_activate_agreeing (f : ν) (arguments : List (ν × Value)) {x y : Eval ν α}
    (h : Run.Follows (State.AgreeFor names) x y) :
    Run.Follows (State.AgreeFor names) (activate cx f arguments x) (activate cx f arguments y) :=
  follows_activate f arguments h State.AgreeFor.alike State.AgreeFor.alike
    (fun before => before.alike.enterCall f arguments before.scopes.rootBindings)
    fun before after => before.leaveCall after

end Names

end Eval

/-- Evaluations from states that agree end alike, in states that agree. -/
theorem Congruence.locality (cx : Context ν) :
    Congruence cx cx Scoping.free fun _ {_} => Run.Follows State.Agree where
  functions_eq := rfl
  label_eq := rfl
  exhausted _ _ _ _ _ _ := .exhausted
  pure _ _ _ _ _ h := .value h
  bind _ _ _ _ _ _ _ hx hf := hx.bind hf
  fail _ _ cause _ := Eval.follows_result State.AgreeFor.alike (.error cause)
  unary _ op v := Eval.follows_unary op v
  readPlace _ place := Eval.follows_readPlace place.corresponds_self
  writeVar _ x v _ _ := Eval.follows_writePlace (Place.var x).corresponds_self v
  writeElement _ x n v _ := Eval.follows_writePlace (Place.element x n).corresponds_self v
  define _ x v _ := Eval.follows_define x v
  assign _ _ v _ := Eval.follows_assign trivial v
  inNewScope _ _ _ _ h := Eval.follows_inNewScope h
  activate _ _ f arguments _ _ h := Eval.follows_activate_agreeing f arguments h

theorem follows_eval (cx : Context ν) (fuel : Nat) (e : Expr ν) :
    Run.Follows State.Agree (eval cx fuel e) (eval cx fuel e) :=
  (Congruence.locality cx).eval (Nat.le_refl fuel) e (i := ()) (Scoping.free_admits _ _)

/-! ### Calls with literal arguments -/

/-- Literal arguments are evaluated without a look at the state. -/
theorem Eval.all_literals (cx : Context ν) (fuel : Nat) (literals : List Scalar) :
    all (eval cx fuel) (literals.map .literal) = pure (literals.map Value.scalar) ∨
      all (eval cx fuel) (literals.map .literal) = Run.exhausted := by
  cases fuel with
  | zero =>
      cases literals with
      | nil => exact .inl rfl
      | cons _ _ => exact .inr rfl
  | succ fuel =>
      refine .inl ?_
      induction literals with
      | nil => rfl
      | cons value rest ih =>
          rw [List.map_cons, all, ih, List.map_cons]
          rfl

theorem follows_call (cx : Context ν) (fuel : Nat) (f : ν) (literals : List Scalar) :
    Run.Follows State.RootAgree (eval cx fuel (.call f (literals.map .literal)))
      (eval cx fuel (.call f (literals.map .literal))) := by
  cases fuel with
  | zero => exact fun _ _ _ => .exhausted
  | succ fuel =>
      show Run.Follows _ (Eval.call cx (eval cx fuel) f _) (Eval.call cx (eval cx fuel) f _)
      unfold Eval.call
      cases cx.functions.get? f with
      | none => exact Eval.follows_result State.RootAgree.alike (.error _)
      | some found =>
          rcases Eval.all_literals cx fuel literals with values | lacking
          · rw [values]
            simp only [pure_bind]
            refine .bind (Eval.follows_result State.RootAgree.alike _) fun _ => ?_
            have body := (Congruence.locality cx).evalBody (Nat.le_refl fuel) found.fn.body .nil
              (i := ()) (Scoping.free_admits _ _)
            refine .bind (Eval.follows_activate f _ body State.RootAgree.alike State.AgreeFor.alike
              (fun before => before.alike.enterCall f _ fun x _ => before.root x)
              fun before after => ?_) fun result => ?_
            · refine ⟨after.alike.leaveCall, ?_⟩
              unfold State.leaveCall
              rw [Chain.rootBindings_withRoot, Chain.rootBindings_withRoot]
              exact fun x => after.scopes.rootBindings x trivial
            · exact fun _ _ h => .value h
          · rw [lacking]
            exact fun _ _ _ => .exhausted

/-! ### Interpreters that agree in some scopes -/

section Views

variable {store other : Store ν}

theorem Store.agree_view {names : ν → Prop} (same : ∀ j, other.parent? j = store.parent? j) {i : Nat}
    (h : ∀ t ∈ store.path i,
      (Correspondence.on names).bindings (store.bindings t) (other.bindings t)) :
    Chain.Corresponds (.on names) (store.view i) (other.view i) := by
  induction i using store.parent_induction with
  | root i hroot =>
      rw [store.view_of_root hroot, other.view_of_root ((same i).trans hroot)]
      exact .root (h i (store.self_mem_path i))
  | child i p hparent ih =>
      rw [store.view_of_parent hparent, other.view_of_parent ((same i).trans hparent)]
      refine .child (h i (store.self_mem_path i)) (ih fun t mem => h t ?_)
      rw [store.path_of_parent hparent]
      exact List.mem_cons_of_mem i mem

theorem Store.agree_of_view {names : ν → Prop} (same : ∀ j, other.parent? j = store.parent? j)
    {i : Nat} (h : Chain.Corresponds (.on names) (store.view i) (other.view i)) :
    ∀ t ∈ store.path i, (Correspondence.on names).bindings (store.bindings t) (other.bindings t) := by
  induction i using store.parent_induction with
  | root i hroot =>
      rw [store.view_of_root hroot, other.view_of_root ((same i).trans hroot)] at h
      intro t mem
      rw [store.path_of_root hroot, List.mem_singleton] at mem
      subst mem
      cases h with
      | root hb => exact hb
  | child i p hparent ih =>
      rw [store.view_of_parent hparent, other.view_of_parent ((same i).trans hparent)] at h
      intro t mem
      rw [store.path_of_parent hparent, List.mem_cons] at mem
      cases h with
      | child hb houter =>
          rcases mem with rfl | mem
          · exact hb
          · exact ih houter t mem

end Views

namespace Interpreter

/-- The interpreters have the same scopes, functions, active calls, limit and printer, and the same
bindings in some of the scopes. -/
structure AgreeOn (scopes : List Nat) (a b : Interpreter ν) : Prop where
  size : b.store.size = a.store.size
  parents : ∀ t, b.store.parent? t = a.store.parent? t
  functions : b.functions = a.functions
  frames : b.stack.frames = a.stack.frames
  limit : b.stack.limit = a.stack.limit
  printer : b.printer = a.printer
  bindings : ∀ t ∈ scopes, Bindings.Agree (a.store.bindings t) (b.store.bindings t)

variable {a b : Interpreter ν} {scopes : List Nat} {scope : Nat}

theorem AgreeOn.context_eq (h : AgreeOn scopes a b) (label : ν → String) :
    b.context label = a.context label := by rw [context, context, h.functions]

theorem AgreeOn.alike_load (h : AgreeOn scopes a b) : (a.load scope).Alike (b.load scope) :=
  ⟨h.frames, h.limit, h.printer⟩

/-- What is put back in both interpreters may only matter for the bindings. -/
theorem AgreeOn.save (h : AgreeOn scopes a b) {s t : State ν} (alike : s.Alike t)
    (bindings : ∀ i ∈ scopes, Bindings.Agree ((a.store.commit scope s.scopes).bindings i)
      ((b.store.commit scope t.scopes).bindings i)) :
    AgreeOn scopes (a.save scope s) (b.save scope t) where
  size := by rw [Interpreter.save, Interpreter.save, Store.size_commit, Store.size_commit, h.size]
  parents j := by
    rw [Interpreter.save, Interpreter.save, Store.parent?_commit, Store.parent?_commit, h.parents]
  functions := h.functions
  frames := alike.frames
  limit := alike.limit
  printer := alike.printer
  bindings := bindings

omit [DecidableEq ν] in
/-- Evaluations that follow each other leave interpreters that are related, if what they reach is. -/
theorem follows_run {S : State ν → State ν → Prop} {T : Interpreter ν → Interpreter ν → Prop}
    {x y : Eval ν α} (start : S (a.load scope) (b.load scope)) (h : Run.Follows S x y)
    (save : ∀ s t, (x (a.load scope)).after? = some s → (y (b.load scope)).after? = some t →
      S s t → T (a.save scope s) (b.save scope t)) :
    Outcome.Follows T (a.run scope x) (b.run scope y) := by
  have both := h _ _ start
  unfold run
  generalize x (a.load scope) = out, y (b.load scope) = out' at both save ⊢
  cases both with
  | value after => exact .value (save _ _ rfl rfl after)
  | error after => exact .error (save _ _ rfl rfl after)
  | exhausted => exact .exhausted

/-- The chain that an evaluation reaches is seen from the scope when it is put back. -/
theorem view_commit_eval (interp : Interpreter ν) (exists_scope : scope < interp.store.size)
    (cx : Context ν) (fuel : Nat) (e : Expr ν) {s : State ν}
    (reached : (MiniLisp.eval cx fuel e (interp.load scope)).after? = some s) :
    (interp.store.commit scope s.scopes).view scope = s.scopes :=
  interp.store.view_commit exists_scope (Chain.Moves.depth_eq (within_eval cx fuel e _ s reached))

/-- An evaluation leaves interpreters in agreement that agree along the path of its scope. -/
theorem follows_eval_path (label : ν → String) (exists_scope : scope < a.store.size)
    (agree : AgreeOn (a.store.path scope) a b) (fuel : Nat) (e : Expr ν) :
    Outcome.Follows (AgreeOn (a.store.path scope)) (a.eval label fuel scope e)
      (b.eval label fuel scope e) := by
  unfold eval
  rw [agree.context_eq label]
  refine follows_run
    ⟨agree.alike_load, Store.agree_view agree.parents fun i mem x _ => agree.bindings i mem x⟩
    (follows_eval (a.context label) fuel e) fun s t hs ht after => ?_
  have parents : ∀ j, (b.store.commit scope t.scopes).parent? j =
      (a.store.commit scope s.scopes).parent? j := fun j => by
    rw [Store.parent?_commit, Store.parent?_commit, agree.parents]
  have views : Chain.Corresponds (.on fun _ => True) ((a.store.commit scope s.scopes).view scope)
      ((b.store.commit scope t.scopes).view scope) := by
    rw [view_commit_eval a exists_scope _ fuel e hs,
      view_commit_eval b (agree.size ▸ exists_scope) _ fuel e ht]
    exact after.scopes
  refine agree.save after.alike fun i mem x => Store.agree_of_view parents views i ?_ x trivial
  rwa [Store.path_congr fun j => a.store.parent?_commit scope j s.scopes]

/-- A call with literal arguments only needs the interpreters to agree in the root of its scope. -/
theorem follows_call_root (label : ν → String) (exists_scope : scope < a.store.size)
    (agree : AgreeOn [a.store.rootOf scope] a b) (fuel : Nat) (f : ν) (literals : List Scalar) :
    Outcome.Follows (AgreeOn [a.store.rootOf scope])
      (a.eval label fuel scope (.call f (literals.map .literal)))
      (b.eval label fuel scope (.call f (literals.map .literal))) := by
  have same_root : b.store.rootOf scope = a.store.rootOf scope := Store.rootOf_congr agree.parents scope
  unfold eval
  rw [agree.context_eq label]
  refine follows_run (S := State.RootAgree) ⟨agree.alike_load, ?_⟩
    (follows_call (a.context label) fuel f literals) fun s t hs ht after => ?_
  · unfold load
    rw [Store.rootBindings_view, Store.rootBindings_view, same_root]
    exact agree.bindings _ (List.mem_singleton.2 rfl)
  · refine agree.save after.alike fun i mem => ?_
    have root_a := (a.store.commit scope s.scopes).rootBindings_view scope
    have root_b := (b.store.commit scope t.scopes).rootBindings_view scope
    rw [view_commit_eval a exists_scope _ fuel _ hs,
      Store.rootOf_congr fun j => a.store.parent?_commit scope j s.scopes] at root_a
    rw [view_commit_eval b (agree.size ▸ exists_scope) _ fuel _ ht,
      Store.rootOf_congr fun j => b.store.parent?_commit scope j t.scopes, same_root] at root_b
    rw [List.mem_singleton.1 mem, ← root_a, ← root_b]
    exact after.root

/-- An evaluation that ends in one interpreter ends in the same way in every other one that agrees
with it along the path of the scope, and both keep agreeing. A call with literal arguments depends on
no scope of the path but the root. -/
theorem eval_local (label : ν → String) (a b : Interpreter ν) (scope : Nat)
    (exists_scope : scope < a.store.size) :
    (∀ e, AgreeOn (a.store.path scope) a b →
      ∀ out, Outcome.Converges (a.eval label · scope e) out →
        ∃ out', Outcome.Converges (b.eval label · scope e) out' ∧
          Outcome.Follows (AgreeOn (a.store.path scope)) out out') ∧
    ∀ f (literals : List Scalar), AgreeOn [a.store.rootOf scope] a b →
      ∀ out, Outcome.Converges (a.eval label · scope (.call f (literals.map .literal))) out →
        ∃ out', Outcome.Converges (b.eval label · scope (.call f (literals.map .literal))) out' ∧
          Outcome.Follows (AgreeOn [a.store.rootOf scope]) out out' :=
  ⟨fun e agree _ converges => Outcome.Converges.follows converges fun fuel =>
      follows_eval_path label exists_scope agree fuel e,
    fun f literals agree _ converges => Outcome.Converges.follows converges fun fuel =>
      follows_call_root label exists_scope agree fuel f literals⟩

/-- The lower scope hides the name 0. -/
def shadowed : Interpreter Nat :=
  { nested with store := nested.store.setBindings 1 ⟨[(0, .int 5)]⟩ }

theorem agreeOn_shadowed (scopes : List Nat) (upper : ∀ t ∈ scopes, t ≠ 1) :
    AgreeOn scopes nested shadowed where
  size := nested.store.size_setBindings 1 _
  parents t := nested.store.parent?_setBindings 1 t _
  functions := rfl
  frames := rfl
  limit := rfl
  printer := rfl
  bindings t mem := by
    intro x
    rw [shadowed, nested.store.bindings_setBindings_of_ne (upper t mem).symm]

/-- Neither an update under the root nor a call under the lower scope can tell them apart. -/
theorem eval_local_shadowed :
    (∃ out, Outcome.Converges (shadowed.eval (fun _ => "") · 0 (.bind .setq 0 (.call 9 []))) out ∧
      Outcome.Follows (AgreeOn [0])
        (nested.eval (fun _ => "") 5 0 (.bind .setq 0 (.call 9 []))) out) ∧
    ∃ out, Outcome.Converges (shadowed.eval (fun _ => "") · 1 (.call 9 [])) out ∧
      Outcome.Follows (AgreeOn [0]) (nested.eval (fun _ => "") 5 1 (.call 9 [])) out := by
  have path : nested.store.path 0 = [0] := nested.store.path_of_root rfl
  have root : nested.store.rootOf 1 = 0 := by decide +kernel
  constructor
  · have ends : (nested.eval (fun _ => "") 5 0 (.bind .setq 0 (.call 9 []))).after?.isSome := by
      decide +kernel
    have := (eval_local (fun _ => "") nested shadowed 0 (by decide)).1 (.bind .setq 0 (.call 9 []))
      (by rw [path]; exact agreeOn_shadowed [0] (by decide)) _
      (.of_after? (Option.some_get ends).symm)
    rwa [path] at this
  · have ends : (nested.eval (fun _ => "") 5 1 (.call 9 [])).after?.isSome := by decide +kernel
    have := (eval_local (fun _ => "") nested shadowed 1 (by decide)).2 9 []
      (by rw [root]; exact agreeOn_shadowed [0] (by decide)) _
      (.of_after? (Option.some_get ends).symm)
    rwa [root] at this

end Interpreter

end MiniLisp
