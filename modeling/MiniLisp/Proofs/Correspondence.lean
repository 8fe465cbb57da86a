import Mathlib.Data.List.Forall2
import MiniLisp.Eval.Basic
import MiniLisp.Proofs.Act
import MiniLisp.Proofs.CallStack
import MiniLisp.Proofs.Simulation

/-!
Programs over different names. A correspondence says which names stand for each other and when scopes
that bind them do. It is kept by everything that a program does with names: looking them up, binding
them and writing through them (`Place.Corresponds.write`). So every operation of an evaluation is
followed by the same operation on corresponding states, whose errors have the same texts
(`Run.SimulatedBy.act`, `Run.SimulatedBy.activate`).
-/

namespace MiniLisp

variable {ν μ α : Type} [DecidableEq ν] [DecidableEq μ]

/-- Which names correspond, and which bindings do: those with the same values for such names. -/
structure Correspondence (ν μ : Type) [DecidableEq ν] [DecidableEq μ] where
  names : ν → μ → Prop
  bindings : Bindings ν → Bindings μ → Prop
  empty : bindings ∅ ∅
  get?_eq : ∀ {b d x y}, bindings b d → names x y → d.get? y = b.get? x
  set : ∀ {b d x y}, bindings b d → names x y → ∀ v, bindings (b.set x v) (d.set y v)

variable (R : Correspondence ν μ)

namespace Correspondence

theorem contains_eq {b : Bindings ν} {d : Bindings μ} {x : ν} {y : μ} (h : R.bindings b d)
    (hx : R.names x y) : d.contains y = b.contains x := by
  rw [Dictionary.contains, Dictionary.contains, R.get?_eq h hx]

/-- Names that correspond to one name are one name. -/
theorem eq_iff {x x' : ν} {y y' : μ} (h : R.names x y) (h' : R.names x' y') : x = x' ↔ y = y' := by
  have both := R.get?_eq (R.set R.empty h .nil) h'
  rw [Dictionary.get?_set, Dictionary.get?_set] at both
  by_cases hx : x = x' <;> by_cases hy : y = y' <;> simp_all

end Correspondence

/-! ### Chains of scopes -/

/-- Chains of the same length whose scopes correspond one by one. -/
inductive Chain.Corresponds : Chain ν → Chain μ → Prop
  | root {b : Bindings ν} {d : Bindings μ} : R.bindings b d → Corresponds (.root b) (.root d)
  | child {b : Bindings ν} {d : Bindings μ} {c : Chain ν} {c' : Chain μ} :
      R.bindings b d → Corresponds c c' → Corresponds (.child b c) (.child d c')

/-- Arguments with the same values for corresponding names. -/
def Correspondence.Arguments (as : List (ν × Value)) (bs : List (μ × Value)) : Prop :=
  List.Forall₂ (fun a b => R.names a.1 b.1 ∧ b.2 = a.2) as bs

variable {R}

namespace Chain.Corresponds

variable {c : Chain ν} {d : Chain μ} {x : ν} {y : μ}

theorem lookup_eq (h : Corresponds R c d) (hx : R.names x y) : d.lookup y = c.lookup x := by
  induction h with
  | root hb => exact R.get?_eq hb hx
  | child hb _ ih => rw [Chain.lookup, Chain.lookup, R.get?_eq hb hx, ih]

theorem contains_eq (h : Corresponds R c d) (hx : R.names x y) : d.contains y = c.contains x := by
  rw [Chain.contains_eq, Chain.contains_eq, h.lookup_eq hx]

theorem define (h : Corresponds R c d) (hx : R.names x y) (v : Value) :
    Corresponds R (c.define x v) (d.define y v) := by
  cases h with
  | root hb => exact .root (R.set hb hx v)
  | child hb outer => exact .child (R.set hb hx v) outer

theorem foldl_define (h : Corresponds R c d) {as : List (ν × Value)} {bs : List (μ × Value)}
    (same : R.Arguments as bs) :
    Corresponds R (as.foldl (fun c a => c.define a.1 a.2) c)
      (bs.foldl (fun c a => c.define a.1 a.2) d) := by
  induction same generalizing c d with
  | nil => exact h
  | @cons a b _ _ first _ ih =>
      obtain ⟨hx, hv⟩ := first
      rw [List.foldl_cons, List.foldl_cons, hv]
      exact ih (h.define hx a.2)

theorem replace (h : Corresponds R c d) (hx : R.names x y) (v : Value) :
    Corresponds R (c.replace x v) (d.replace y v) := by
  induction h with
  | root hb =>
      rw [Chain.replace, Chain.replace, R.contains_eq hb hx]
      split
      · exact .root (R.set hb hx v)
      · exact .root hb
  | child hb outer ih =>
      rw [Chain.replace, Chain.replace, R.contains_eq hb hx]
      split
      · exact .child (R.set hb hx v) outer
      · exact .child hb ih

theorem enter (h : Corresponds R c d) : Corresponds R c.enter d.enter := .child R.empty h

theorem leave (h : Corresponds R c d) : Corresponds R c.leave d.leave := by
  cases h with
  | root hb => exact .root hb
  | child _ outer => exact outer

theorem rootBindings (h : Corresponds R c d) : R.bindings c.rootBindings d.rootBindings := by
  induction h with
  | root hb => exact hb
  | child _ _ ih => exact ih

theorem withRoot (h : Corresponds R c d) {b : Bindings ν} {b' : Bindings μ}
    (hb : R.bindings b b') : Corresponds R (c.withRoot b) (d.withRoot b') := by
  induction h with
  | root _ => exact .root hb
  | child own _ ih => exact .child own ih

end Chain.Corresponds

/-! ### Places -/

variable (R) in
inductive Place.Corresponds : Place ν → Place μ → Prop
  | var {x : ν} {y : μ} : R.names x y → Corresponds (.var x) (.var y)
  | element {x : ν} {y : μ} : R.names x y → ∀ i, Corresponds (.element x i) (.element y i)

namespace Place.Corresponds

variable {place : Place ν} {place' : Place μ} {c : Chain ν} {d : Chain μ} {label : ν → String}
  {label' : μ → String} (h : Place.Corresponds R place place')
  (labels : ∀ x y, R.names x y → label' y = label x) (hc : Chain.Corresponds R c d)

include h labels hc

theorem read_eq : place'.read label' d = place.read label c := by
  cases h with
  | @var x y hx => rw [Place.read, Place.read, hc.lookup_eq hx, labels x y hx]
  | @element x y hx i =>
      rw [Place.read_element, Place.read_element, hc.lookup_eq hx, labels x y hx]

theorem write (v : Value) :
    (place'.write label' v d).1 = (place.write label v c).1 ∧
      Chain.Corresponds R (place.write label v c).2 (place'.write label' v d).2 := by
  cases h with
  | @var x y hx =>
      rw [Place.write_var, Place.write_var, hc.contains_eq hx]
      refine ⟨rfl, ?_⟩
      split
      · exact hc.replace hx v
      · exact hc.define hx v
  | @element x y hx i =>
      rw [Place.write_element, Place.write_element, hc.lookup_eq hx, labels x y hx]
      split
      · exact ⟨rfl, hc.replace hx _⟩
      · exact ⟨rfl, hc⟩

end Place.Corresponds

/-! ### States -/

variable (R) in
/-- Corresponding scopes and calls, under the same limit and with the same printed lines. -/
structure State.Corresponds (s : State ν) (t : State μ) : Prop where
  scopes : Chain.Corresponds R s.scopes t.scopes
  frames : List.Forall₂ R.names s.stack.frames t.stack.frames
  limit : t.stack.limit = s.stack.limit
  printer : t.printer = s.printer

variable (R) in
/-- Both contexts report errors at the same time and with the same names in them. -/
structure Context.Reports (cx : Context ν) (cx' : Context μ) : Prop where
  label : ∀ x y, R.names x y → cx'.label y = cx.label x
  stamping : cx'.stamping = cx.stamping

namespace Context.Reports

variable {cx : Context ν} {cx' : Context μ} (same : Reports R cx cx')
  {stack : CallStack ν} {stack' : CallStack μ} (frames : List.Forall₂ R.names stack.frames stack'.frames)

include same frames

theorem attach_eq (error : EvalError) :
    stack'.attach cx'.label error = stack.attach cx.label error := by
  have texts : stack'.frames.map cx'.label = stack.frames.map cx.label := by
    generalize stack.frames = fs, stack'.frames = gs at frames
    induction frames with
    | nil => rfl
    | @cons x y _ _ hx _ ih => rw [List.map_cons, List.map_cons, same.label x y hx, ih]
  have idle : stack'.isEmpty = stack.isEmpty := by
    unfold CallStack.isEmpty
    generalize stack.frames = fs, stack'.frames = gs at frames
    cases frames <;> rfl
  unfold CallStack.attach CallStack.capture
  rw [texts, idle]

theorem raise_eq (cause : Cause) : cx'.raise stack' cause = cx.raise stack cause := by
  unfold Context.raise
  rw [same.stamping, ← CallStack.attach_ofCause, ← CallStack.attach_ofCause, same.attach_eq frames]

theorem leave_eq (error : EvalError) : cx'.leave stack' error = cx.leave stack error := by
  unfold Context.leave
  rw [same.stamping, same.attach_eq frames]

end Context.Reports

namespace State.Corresponds

variable {s : State ν} {t : State μ}

theorem enterCall (h : Corresponds R s t) {f : ν} {g : μ} (hf : R.names f g)
    {as : List (ν × Value)} {bs : List (μ × Value)} (same : R.Arguments as bs) :
    Corresponds R (s.enterCall (s.stack.entered f) as) (t.enterCall (t.stack.entered g) bs) := by
  refine ⟨?_, .cons hf h.frames, h.limit, h.printer⟩
  exact Chain.Corresponds.foldl_define (.child R.empty (.root h.scopes.rootBindings)) same

theorem leaveCall {after : State ν} {after' : State μ} (h : Corresponds R s t)
    (inside : Corresponds R after after') :
    Corresponds R (s.leaveCall after) (t.leaveCall after') := by
  refine ⟨h.scopes.withRoot inside.scopes.rootBindings, ?_, ?_, inside.printer⟩
  · have frames := inside.frames
    show List.Forall₂ R.names after.stack.pop.frames after'.stack.pop.frames
    unfold CallStack.pop
    generalize after.stack = stack, after'.stack = stack' at frames
    obtain ⟨fs, _, _, _⟩ := stack
    obtain ⟨gs, _, _, _⟩ := stack'
    cases frames with
    | nil => exact .nil
    | cons _ rest => exact rest
  · exact after'.stack.limit_pop.trans (inside.limit.trans after.stack.limit_pop.symm)

end State.Corresponds

/-! ### Operations -/

namespace Run.SimulatedBy

variable {cx : Context ν} {cx' : Context μ} (same : Context.Reports R cx cx')

section Acts

include same

/-- What computes the same on corresponding chains is followed. -/
theorem act {f : Chain ν → Printer → Except Cause α × Chain ν × Printer}
    {g : Chain μ → Printer → Except Cause α × Chain μ × Printer}
    (h : ∀ c d p, Chain.Corresponds R c d → (g d p).1 = (f c p).1 ∧
      Chain.Corresponds R (f c p).2.1 (g d p).2.1 ∧ (g d p).2.2 = (f c p).2.2) :
    SimulatedBy (State.Corresponds R) (Eval.act cx f) fun _ => Eval.act cx' g := by
  refine of_matches fun s t related => ?_
  obtain ⟨results, chains, printers⟩ := h s.scopes t.scopes s.printer related.scopes
  rw [Eval.act_apply, Eval.act_apply, related.printer, results]
  have after : State.Corresponds R ⟨(f s.scopes s.printer).2.1, s.stack, (f s.scopes s.printer).2.2⟩
      ⟨(g t.scopes s.printer).2.1, t.stack, (g t.scopes s.printer).2.2⟩ :=
    ⟨chains, related.frames, related.limit, printers⟩
  split
  · exact .value after
  · rw [same.raise_eq related.frames]
    exact .error after

theorem ofExcept (r : Except Cause α) :
    SimulatedBy (State.Corresponds R) (Eval.ofExcept cx r) fun _ => Eval.ofExcept cx' r :=
  act same (f := fun c p => (r, c, p)) (g := fun d p => (r, d, p)) fun _ _ _ hc => ⟨rfl, hc, rfl⟩

theorem fail (cause : Cause) :
    SimulatedBy (State.Corresponds R) (Eval.fail cx cause : Eval ν α) fun _ => Eval.fail cx' cause :=
  ofExcept same (.error cause)

theorem unary (op : UnaryOp) (v : Value) :
    SimulatedBy (State.Corresponds R) (Eval.unary cx op v) fun _ => Eval.unary cx' op v :=
  act same (f := fun c p => ((op.apply v p).1, c, (op.apply v p).2))
    (g := fun d p => ((op.apply v p).1, d, (op.apply v p).2)) fun _ _ _ hc => ⟨rfl, hc, rfl⟩

theorem readPlace {place : Place ν} {place' : Place μ} (h : Place.Corresponds R place place') :
    SimulatedBy (State.Corresponds R) (Eval.readPlace cx place) fun _ => Eval.readPlace cx' place' :=
  act same (f := fun c p => (place.read cx.label c, c, p))
    (g := fun d p => (place'.read cx'.label d, d, p))
    fun _ _ _ hc => ⟨h.read_eq same.label hc, hc, rfl⟩

theorem writePlace {place : Place ν} {place' : Place μ} (h : Place.Corresponds R place place')
    (v : Value) :
    SimulatedBy (State.Corresponds R) (Eval.writePlace cx place v)
      fun _ => Eval.writePlace cx' place' v := by
  refine act same (f := fun c p =>
    ((place.write cx.label v c).1, (place.write cx.label v c).2, p)) (g := fun d p =>
    ((place'.write cx'.label v d).1, (place'.write cx'.label v d).2, p)) fun c d _ hc => ?_
  obtain ⟨results, chains⟩ := h.write same.label hc v
  exact ⟨results, chains, rfl⟩

theorem assign {x : ν} {y : μ} (hx : R.names x y) (v : Value) :
    SimulatedBy (State.Corresponds R) (Eval.assign cx x v) fun _ => Eval.assign cx' y v := by
  rw [Eval.assign_eq_act, Eval.assign_eq_act]
  refine act same fun c d p hc => ?_
  rw [Chain.assign?_eq, Chain.assign?_eq, hc.lookup_eq hx, same.label x y hx]
  cases c.lookup x with
  | none => exact ⟨rfl, hc, rfl⟩
  | some _ => exact ⟨rfl, hc.replace hx v, rfl⟩

end Acts

theorem define {x : ν} {y : μ} (hx : R.names x y) (v : Value) :
    SimulatedBy (State.Corresponds R) (Eval.define x v) fun _ => Eval.define y v :=
  of_matches fun _ _ related =>
    .value ⟨related.scopes.define hx v, related.frames, related.limit, related.printer⟩

section Calls

variable {x : Eval ν α} {y : Nat → Eval μ α} (h : SimulatedBy (State.Corresponds R) x y)

include h

theorem inNewScope :
    SimulatedBy (State.Corresponds R) (Eval.inNewScope x) fun n => Eval.inNewScope (y n) := by
  intro s t related
  have inside : State.Corresponds R { s with scopes := s.scopes.enter }
      { t with scopes := t.scopes.enter } :=
    ⟨related.scopes.enter, related.frames, related.limit, related.printer⟩
  simp only [Eval.inNewScope_apply]
  refine (h _ _ inside).exit (fun _ _ after => ?_) fun _ _ _ _ => rfl
  exact ⟨after.scopes.leave, after.frames, after.limit, after.printer⟩

include same

theorem activate {f : ν} {g : μ} (hf : R.names f g) {as : List (ν × Value)}
    {bs : List (μ × Value)} (arguments : R.Arguments as bs) :
    SimulatedBy (State.Corresponds R) (Eval.activate cx f as x)
      fun n => Eval.activate cx' g bs (y n) := by
  intro s t related
  -- equally many calls are active, so both calls are refused or neither is
  have depth : t.stack.depth = s.stack.depth := related.frames.length_eq.symm
  rcases Eval.activate_cases cx f as x s with ⟨limit, hlimit, full, refused⟩ | ⟨room, started⟩
  · have hlimit' := related.limit.trans hlimit
    have full' : limit ≤ t.stack.depth := depth ▸ full
    simp only [refused, Eval.activate_of_full cx' g bs _ hlimit' full']
    rw [same.raise_eq related.frames]
    exact .of_matches (.error related)
  · have room' : ∀ limit, t.stack.limit = some limit → t.stack.depth < limit := by
      rw [related.limit, depth]
      exact room
    simp only [started, Eval.activate_of_room cx' g bs _ room']
    refine (h _ _ (related.enterCall hf arguments)).exit (fun _ _ after => ?_)
      fun _ _ error after => ?_
    · exact related.leaveCall after
    · exact same.leave_eq after.frames error

end Calls

end Run.SimulatedBy

end MiniLisp
