import MiniLisp.Proofs.Backtrace
import MiniLisp.Proofs.Simulation

/-!
Printing. What a computation prints goes to the end of what is printed already, a line for each printed
value, and neither the kind of the printer nor what it holds has any influence on the computation
(`Run.Prints`). So lines may be taken from the printer at any time between the forms of a program: the
taken texts and what is held at the end are together what the program prints
(`Interpreter.output_appended`).
-/

namespace MiniLisp

variable {ν α β : Type}

namespace Printer

/-- Prints a text as it is. -/
def append (text : String) : Printer → Printer
  | buffer held => buffer (held ++ text)
  | stdout sent => stdout (sent ++ text)
  | silent => silent

variable (printer : Printer) (line text more : String)

theorem emit_eq_append : printer.emit line = printer.append (line ++ "\n") := by
  cases printer with
  | buffer held => exact congrArg buffer String.append_assoc
  | stdout sent => exact congrArg stdout String.append_assoc
  | silent => rfl

@[simp] theorem append_empty : printer.append "" = printer := by
  cases printer with
  | buffer held => exact congrArg buffer String.append_empty
  | stdout sent => exact congrArg stdout String.append_empty
  | silent => rfl

theorem append_append : (printer.append text).append more = printer.append (text ++ more) := by
  cases printer with
  | buffer held => exact congrArg buffer String.append_assoc
  | stdout sent => exact congrArg stdout String.append_assoc
  | silent => rfl

/-- Taking the lines first divides the output in two. -/
theorem take_append_output :
    printer.take.1 ++ (printer.take.2.append text).output = (printer.append text).output := by
  cases printer with
  | buffer held => exact congrArg (held ++ ·) String.empty_append
  | stdout sent => exact String.empty_append
  | silent => exact String.empty_append

end Printer

/-- The text of some values, one on each line. -/
def lines (vs : List Value) : String := String.join (vs.map fun v => v.toText ++ "\n")

@[simp] theorem Printer.append_lines_nil (printer : Printer) : printer.append (lines []) = printer :=
  printer.append_empty

theorem lines_append (vs ws : List Value) : lines (vs ++ ws) = lines vs ++ lines ws := by
  rw [lines, List.map_append, String.join_append]
  rfl

theorem emit_toText (v : Value) (printer : Printer) :
    printer.emit v.toText = printer.append (lines [v]) := by
  rw [Printer.emit_eq_append]
  simp [lines]

/-- The same state with another printer. -/
def State.withPrinter (s : State ν) (printer : Printer) : State ν := { s with printer }

/-- With any printer, a computation ends in the same way and prints the same lines. -/
def Run.Prints (x : Eval ν α) : Prop :=
  ∀ s, ∃ vs, ∀ printer, x (s.withPrinter printer) =
    (x s).exit (fun after => after.withPrinter (printer.append (lines vs))) fun _ e => e

namespace Run.Prints

theorem exhausted : Prints (exhausted : Eval ν α) := fun _ => ⟨[], fun _ => rfl⟩

/-- An act that only adds lines to what is printed. -/
theorem act (cx : Context ν) {f : Chain ν → Printer → Except Cause α × Chain ν × Printer}
    (h : ∀ c, ∃ r c' vs, ∀ printer, f c printer = (r, c', printer.append (lines vs))) :
    Prints (Eval.act cx f) := by
  intro s
  obtain ⟨r, c', vs, same⟩ := h s.scopes
  refine ⟨vs, fun printer => ?_⟩
  have other : f (s.withPrinter printer).scopes (s.withPrinter printer).printer =
      (r, c', printer.append (lines vs)) := same printer
  rw [Eval.act_apply, Eval.act_apply, other, same s.printer]
  cases r <;> rfl

/-- An act that does not look at the printer. -/
theorem act_scopes (cx : Context ν) (f : Chain ν → Except Cause α × Chain ν) :
    Prints (Eval.act cx fun c p => ((f c).1, (f c).2, p)) :=
  act cx fun c => ⟨(f c).1, (f c).2, [], fun printer => by rw [printer.append_lines_nil]⟩

theorem pure (a : α) : Prints (pure a : Eval ν α) := fun s =>
  ⟨[], fun printer => by rw [printer.append_lines_nil]; rfl⟩

/-- The second part prints after the first one. -/
theorem bind {x : Eval ν α} {f : α → Eval ν β} (hx : Prints x) (hf : ∀ a, Prints (f a)) :
    Prints (x >>= f) := by
  intro s
  obtain ⟨vs, first⟩ := hx s
  cases h : x s with
  | value a t =>
      obtain ⟨ws, second⟩ := hf a t
      refine ⟨vs ++ ws, fun printer => ?_⟩
      have reached : x (s.withPrinter printer) =
          .value a (t.withPrinter (printer.append (lines vs))) := by rw [first, h]; rfl
      rw [Run.bind_of_value reached, Run.bind_of_value h, second, Printer.append_append,
        ← lines_append]
  | error e t =>
      refine ⟨vs, fun printer => ?_⟩
      have reached : x (s.withPrinter printer) =
          .error e (t.withPrinter (printer.append (lines vs))) := by rw [first, h]; rfl
      rw [Run.bind_of_error reached, Run.bind_of_error h]
      rfl
  | exhausted =>
      refine ⟨[], fun printer => ?_⟩
      have reached : x (s.withPrinter printer) = .exhausted := by rw [first, h]; rfl
      rw [Run.bind_of_exhausted reached, Run.bind_of_exhausted h]
      rfl

theorem inNewScope {x : Eval ν α} (hx : Prints x) : Prints (Eval.inNewScope x) := by
  intro s
  obtain ⟨vs, same⟩ := hx { s with scopes := s.scopes.enter }
  refine ⟨vs, fun printer => ?_⟩
  have inside : x { s.withPrinter printer with scopes := (s.withPrinter printer).scopes.enter } = _ :=
    same printer
  rw [Eval.inNewScope_apply, Eval.inNewScope_apply, inside]
  cases x { s with scopes := s.scopes.enter } <;> rfl

/-- Whether there is room for a call does not depend on the printer. -/
theorem activate [DecidableEq ν] (cx : Context ν) (f : ν) (arguments : List (ν × Value))
    {x : Eval ν α} (hx : Prints x) : Prints (Eval.activate cx f arguments x) := by
  intro s
  rcases Eval.activate_cases cx f arguments x s with ⟨limit, hlimit, full, refused⟩ | ⟨room, started⟩
  · refine ⟨[], fun printer => ?_⟩
    rw [refused, Eval.activate_of_full cx f arguments x (s := s.withPrinter printer) hlimit full,
      printer.append_lines_nil]
    rfl
  · obtain ⟨vs, same⟩ := hx (s.enterCall (s.stack.entered f) arguments)
    refine ⟨vs, fun printer => ?_⟩
    have inside : x ((s.withPrinter printer).enterCall ((s.withPrinter printer).stack.entered f)
        arguments) = _ := same printer
    rw [started, Eval.activate_of_room cx f arguments x (s := s.withPrinter printer) room, inside]
    cases x (s.enterCall (s.stack.entered f) arguments) <;> rfl

end Run.Prints

variable [DecidableEq ν]

/-- Every part of an evaluation only adds lines to what is printed. -/
theorem Congruence.prints (cx : Context ν) :
    Congruence cx cx Scoping.free fun _ {_} x _ => Run.Prints x where
  functions_eq := rfl
  label_eq := rfl
  exhausted _ _ _ := .exhausted
  pure _ _ a := .pure a
  bind _ _ _ _ _ _ _ hx hf := .bind hx hf
  fail _ _ cause _ := Run.Prints.act_scopes cx fun c => (.error cause, c)
  unary _ op v := by
    refine Run.Prints.act cx (f := fun c p => ((op.apply v p).1, c, (op.apply v p).2)) fun c => ?_
    cases op with
    | print => exact ⟨.ok v, c, [v], fun printer => congrArg (_, _, ·) (emit_toText v printer)⟩
    | not | makeArray => exact ⟨_, c, [], fun printer => by rw [printer.append_lines_nil]; rfl⟩
  readPlace _ place := Run.Prints.act_scopes cx fun c => (place.read cx.label c, c)
  writeVar _ x v _ _ := Run.Prints.act_scopes cx ((Place.var x).write cx.label v)
  writeElement _ x n v _ := Run.Prints.act_scopes cx ((Place.element x n).write cx.label v)
  define _ x v _ := Run.Prints.act_scopes cx fun c => (.ok (), c.define x v)
  assign _ x v _ := by
    rw [Eval.assign_eq_act]
    refine .act cx fun c => ?_
    cases c.assign? x v with
    | none | some _ => exact ⟨_, _, [], fun printer => by rw [printer.append_lines_nil]⟩
  inNewScope _ _ _ _ h := .inNewScope h
  activate _ _ f arguments _ _ h := .activate cx f arguments h

theorem prints_eval (cx : Context ν) (fuel : Nat) (e : Expr ν) : Run.Prints (eval cx fuel e) :=
  (Congruence.prints cx).eval (Nat.le_refl fuel) e (i := ()) (Scoping.free_admits _ _)

namespace Interpreter

variable {label : ν → String} {interp : Interpreter ν}

/-- The same interpreter with another printer. -/
def withPrinter (interp : Interpreter ν) (printer : Printer) : Interpreter ν := { interp with printer }

omit [DecidableEq ν] in
theorem run_withPrinter {x : Eval ν α} (prints : Run.Prints x) (interp : Interpreter ν) (scope : Nat) :
    ∃ vs, ∀ printer, (interp.withPrinter printer).run scope x =
      (interp.run scope x).exit (fun after => after.withPrinter (printer.append (lines vs)))
        fun _ e => e := by
  obtain ⟨vs, same⟩ := prints (interp.load scope)
  refine ⟨vs, fun printer => ?_⟩
  have inside : x ((interp.withPrinter printer).load scope) = _ := same printer
  rw [run, run, inside]
  cases x (interp.load scope) <;> rfl

/-- A form prints its lines, and a definition none. -/
theorem execute_withPrinter (label : ν → String) (fuel : Nat) (interp : Interpreter ν)
    (form : Form ν) :
    ∃ vs, ∀ printer, (interp.withPrinter printer).execute label fuel form =
      (interp.execute label fuel form).exit
        (fun after => after.withPrinter (printer.append (lines vs))) fun _ e => e := by
  cases form with
  | expr e =>
      obtain ⟨vs, same⟩ := interp.run_withPrinter (prints_eval (interp.context label) fuel e) root
      refine ⟨vs, fun printer => ?_⟩
      have inside : (interp.withPrinter printer).eval label fuel root e = _ := same printer
      rw [execute_expr, execute_expr, inside, eval]
      cases interp.run root (MiniLisp.eval (interp.context label) fuel e) <;> rfl
  | function fn =>
      refine ⟨[], fun printer => ?_⟩
      rw [printer.append_lines_nil]
      rfl

/-- A form that ends with one printer ends with every other one. -/
theorem converges_withPrinter {form : Form ν} {out : Outcome (Interpreter ν) EvalError (Option Value)}
    (converges : Outcome.Converges (interp.execute label · form) out) :
    ∃ vs, ∀ printer, Outcome.Converges ((interp.withPrinter printer).execute label · form)
      (out.exit (fun after => after.withPrinter (printer.append (lines vs))) fun _ e => e) := by
  obtain ⟨done, fuel, rfl⟩ := converges
  obtain ⟨vs, same⟩ := execute_withPrinter label fuel interp form
  exact ⟨vs, fun printer => ⟨mt Outcome.exit_eq_exhausted.1 done, fuel, same printer⟩⟩

/-- A form has one outcome at most, whatever the fuel. -/
theorem execute_unique {form : Form ν} {out out' : Outcome (Interpreter ν) EvalError (Option Value)}
    (h : Outcome.Converges (interp.execute label · form) out)
    (h' : Outcome.Converges (interp.execute label · form) out') : out = out' := by
  cases form with
  | expr e =>
      simp only [execute_expr] at h h'
      obtain ⟨first, converges, rfl⟩ := Outcome.converges_map.1 h
      obtain ⟨first', converges', rfl⟩ := Outcome.converges_map.1 h'
      rw [eval_unique label e converges converges']
  | function fn =>
      obtain ⟨-, fuel, rfl⟩ := h
      obtain ⟨-, fuel', rfl⟩ := h'
      rfl

/-- What the host of an interpreter does between two forms or with one: it takes the lines that are
held, or executes the form with the texts that names have then. -/
inductive Action (ν : Type) where
  | execute (label : ν → String) (form : Form ν)
  | take

def Action.isForm : Action ν → Bool
  | .execute _ _ => true
  | .take => false

/-- Actions one after another, with the outcomes of the forms, the taken texts and the interpreter in
the end. Each form comes to an end, and a form that fails does not stop the host. -/
inductive Performs : Interpreter ν → List (Action ν) →
    List (Outcome (Interpreter ν) EvalError (Option Value)) → List String → Interpreter ν → Prop
  | nil {interp : Interpreter ν} : Performs interp [] [] [] interp
  | execute {interp after last : Interpreter ν} {label : ν → String} {form : Form ν}
      {rest : List (Action ν)} {out : Outcome (Interpreter ν) EvalError (Option Value)}
      {outs : List (Outcome (Interpreter ν) EvalError (Option Value))} {texts : List String} :
      Outcome.Converges (interp.execute label · form) out → out.after? = some after →
        Performs after rest outs texts last →
          Performs interp (.execute label form :: rest) (out :: outs) texts last
  | take {interp last : Interpreter ν} {rest : List (Action ν)}
      {outs : List (Outcome (Interpreter ν) EvalError (Option Value))} {texts : List String} :
      Performs (interp.withPrinter interp.printer.take.2) rest outs texts last →
        Performs interp (.take :: rest) outs (interp.printer.take.1 :: texts) last

/-- The interpreters differ in their printers at most. -/
def AlikeButPrinter (a b : Interpreter ν) : Prop := b = a.withPrinter b.printer

omit [DecidableEq ν] in
theorem matches_withPrinter {out : Outcome (Interpreter ν) EvalError α} {after : Interpreter ν}
    (ended : out.after? = some after) (printer : Printer) :
    Outcome.Matches AlikeButPrinter out (out.exit (·.withPrinter printer) fun _ e => e) := by
  cases out with
  | value a t => exact .value rfl
  | error e t => exact .error rfl
  | exhausted => cases ended

namespace Performs

variable {a last last' : Interpreter ν} {actions : List (Action ν)}
  {outs outs' : List (Outcome (Interpreter ν) EvalError (Option Value))} {texts texts' : List String}

/-- Actions have one course at most. -/
theorem unique (h : a.Performs actions outs texts last) (h' : a.Performs actions outs' texts' last') :
    outs = outs' ∧ texts = texts' ∧ last = last' := by
  induction h generalizing outs' texts' last' with
  | nil =>
      cases h'
      exact ⟨rfl, rfl, rfl⟩
  | execute converges ended _ ih =>
      cases h' with
      | execute converges' ended' rest' =>
          obtain rfl := execute_unique converges converges'
          obtain rfl := Option.some.inj (ended.symm.trans ended')
          obtain ⟨rfl, rfl, rfl⟩ := ih rest'
          exact ⟨rfl, rfl, rfl⟩
  | take _ ih =>
      cases h' with
      | take rest' =>
          obtain ⟨rfl, rfl, rfl⟩ := ih rest'
          exact ⟨rfl, rfl, rfl⟩

/-- The same forms with any printer and without taking: they print one text, and it is what is taken
and held when lines are taken. -/
theorem untaken (h : a.Performs actions outs texts last) :
    ∃ text, (∀ printer, ∃ outs', (a.withPrinter printer).Performs (actions.filter Action.isForm) outs' []
        (last.withPrinter (printer.append text)) ∧
        List.Forall₂ (Outcome.Matches AlikeButPrinter) outs outs') ∧
      String.join texts ++ last.printer.output = (a.printer.append text).output := by
  induction h with
  | @nil interp =>
      exact ⟨"", fun printer => ⟨[], by rw [printer.append_empty]; exact .nil, .nil⟩, by simp⟩
  | @execute interp after last label form rest out outs texts converges ended _ ih =>
      obtain ⟨vs, same⟩ := converges_withPrinter converges
      obtain ⟨text, untaken, held⟩ := ih
      have printed : after.printer = interp.printer.append (lines vs) := by
        have own := congrArg Outcome.after? (execute_unique converges (same interp.printer))
        rw [Outcome.after?_exit, ended] at own
        exact congrArg Interpreter.printer (Option.some.inj own)
      refine ⟨lines vs ++ text, fun printer => ?_, ?_⟩
      · obtain ⟨outs', performs, alike⟩ := untaken (printer.append (lines vs))
        rw [Printer.append_append] at performs
        refine ⟨_, .execute (same printer) (by rw [Outcome.after?_exit, ended]; rfl) performs, ?_⟩
        exact .cons (matches_withPrinter ended _) alike
      · rw [held, printed, Printer.append_append]
  | @take interp last rest outs texts _ ih =>
      obtain ⟨text, untaken, held⟩ := ih
      refine ⟨text, untaken, ?_⟩
      rw [String.join_cons, String.append_assoc, held]
      exact interp.printer.take_append_output text

/-- Taking lines, or not, does not keep a form from its end. -/
theorem of_untaken (h : a.Performs (actions.filter Action.isForm) outs texts last) (printer : Printer) :
    ∃ outs' texts' last', (a.withPrinter printer).Performs actions outs' texts' last' := by
  induction actions generalizing a outs texts printer with
  | nil => exact ⟨[], [], _, .nil⟩
  | cons action rest ih =>
      cases action with
      | take =>
          obtain ⟨outs', texts', last', performs⟩ := ih h printer.take.2
          exact ⟨_, _, _, .take performs⟩
      | execute label form =>
          cases h with
          | @execute _ after _ _ _ _ out outs _ converges ended performs =>
              obtain ⟨vs, same⟩ := converges_withPrinter converges
              obtain ⟨outs', texts', last', performs'⟩ := ih performs (printer.append (lines vs))
              exact ⟨_, _, _, .execute (same printer) (by rw [Outcome.after?_exit, ended]; rfl) performs'⟩

end Performs

/-- With any printer an evaluation ends in the same way, or does not end; what it prints, a line for each
printed value, goes to the end of what is printed already, also if it fails. Forms between which lines
are taken do what they do if none are, and the taken texts with what is held at the end are what is
held at the end then. -/
theorem printing_appends (interp : Interpreter ν) :
    (∀ label scope e,
      (∃ (out : Outcome (Interpreter ν) EvalError Value) (vs : List Value), ∀ printer,
        Outcome.Converges ((interp.withPrinter printer).eval label · scope e)
          (out.exit (fun after => after.withPrinter (printer.append (lines vs))) fun _ err => err)) ∨
      ∀ printer out, ¬Outcome.Converges ((interp.withPrinter printer).eval label · scope e) out) ∧
    ∀ actions,
      ((∃ outs texts last, interp.Performs actions outs texts last) ↔
        ∃ outs texts last, interp.Performs (actions.filter Action.isForm) outs texts last) ∧
      ∀ outs texts last outs' texts' last', interp.Performs actions outs texts last →
        interp.Performs (actions.filter Action.isForm) outs' texts' last' →
          List.Forall₂ (Outcome.Matches AlikeButPrinter) outs outs' ∧ AlikeButPrinter last last' ∧
          texts' = [] ∧ String.join texts ++ last.printer.output = last'.printer.output := by
  refine ⟨fun label scope e => ?_, fun actions => ⟨⟨?_, ?_⟩, ?_⟩⟩
  · have prints := fun fuel =>
      interp.run_withPrinter (prints_eval (interp.context label) fuel e) scope
    by_cases ends : ∃ fuel, interp.eval label fuel scope e ≠ .exhausted
    · obtain ⟨fuel, done⟩ := ends
      obtain ⟨vs, same⟩ := prints fuel
      exact .inl ⟨interp.eval label fuel scope e, vs, fun printer =>
        ⟨mt Outcome.exit_eq_exhausted.1 done, fuel, same printer⟩⟩
    · refine .inr fun printer out ⟨done, fuel, reached⟩ => ends ⟨fuel, fun lacking => done ?_⟩
      obtain ⟨vs, same⟩ := prints fuel
      rw [← reached]
      exact (same printer).trans (Outcome.exit_eq_exhausted.2 lacking)
  · rintro ⟨outs, texts, last, performs⟩
    obtain ⟨text, untaken, -⟩ := performs.untaken
    obtain ⟨outs', performs', -⟩ := untaken interp.printer
    exact ⟨outs', [], _, performs'⟩
  · rintro ⟨outs, texts, last, performs⟩
    exact performs.of_untaken interp.printer
  · intro outs texts last outs' texts' last' performs performs'
    obtain ⟨text, untaken, held⟩ := performs.untaken
    obtain ⟨others, plain, alike⟩ := untaken interp.printer
    obtain ⟨rfl, rfl, rfl⟩ := performs'.unique plain
    exact ⟨alike, rfl, rfl, held⟩

/-- The line of the first form is taken, and the second form fails after it has printed: without the
taking, all three lines are held at the end. -/
theorem printing_appends_interrupted :
    let one := .expr (.unary .print (.literal (.int 1)))
    let two := .expr (.variadic (.arithmetic .add)
      [.unary .print (.literal (.int 2)), .unary .print (.literal .t)])
    let actions := [.execute toString one, .take, .execute toString two]
    let interp : Interpreter Nat := new none (.buffer "")
    ∃ outs last outs' last', interp.Performs actions outs ["1\n"] last ∧
      interp.Performs (actions.filter Action.isForm) outs' [] last' ∧
      List.Forall₂ (Outcome.Matches AlikeButPrinter) outs outs' ∧
      outs.map (·.failure?.isSome) = [false, true] ∧
      last.printer = .buffer "2\nT\n" ∧ last'.printer.output = "1\n2\nT\n" := by
  intro one two actions interp
  let first := interp.execute toString 3 one
  have succeeds : first.failure?.isSome = false := by decide +kernel
  have shown : first.after?.map printer = some (.buffer "1\n") := by decide +kernel
  obtain ⟨between, ended, held⟩ := Option.map_eq_some_iff.1 shown
  let second (between : Interpreter Nat) :=
    (between.withPrinter between.printer.take.2).execute toString 4 two
  have shown' : first.after?.map (fun between =>
      ((second between).failure?.isSome, (second between).after?.map printer)) =
        some (true, some (.buffer "2\nT\n")) := by decide +kernel
  rw [ended, Option.map_some] at shown'
  obtain ⟨fails, shown'⟩ := Prod.mk.inj (Option.some.inj shown')
  obtain ⟨last, ended', held'⟩ := Option.map_eq_some_iff.1 shown'
  have performs : interp.Performs actions [first, second between] [between.printer.take.1] last :=
    .execute (.of_after? ended) ended (.take (.execute (.of_after? ended') ended' .nil))
  rw [held] at performs
  obtain ⟨courses, agree⟩ := interp.printing_appends.2 actions
  obtain ⟨outs', texts', last', plain⟩ := courses.1 ⟨_, _, _, performs⟩
  obtain ⟨alike, -, rfl, output⟩ := agree _ _ _ _ _ _ performs plain
  refine ⟨_, last, outs', last', performs, plain, alike, ?_, held', ?_⟩
  · rw [List.map_cons, List.map_cons, succeeds, fails, List.map_nil]
  · rw [← output, held']
    decide

end Interpreter

end MiniLisp
