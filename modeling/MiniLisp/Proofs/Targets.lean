import MiniLisp.Syntax.Basic

/-!
The names that the text of an expression writes to. The bodies of called functions are not part of
the text. Main statement: a name that may be declared in the current scope is a target
(`Expr.mem_targets_of_mem_declared`).
-/

namespace MiniLisp

variable {ν : Type}

mutual

/-- The targets of all declarations, assignments and updates in the text. -/
def Expr.targets : Expr ν → List ν
  | .literal _ => []
  | .var _ => []
  | .element _ index => index.targets
  | .unary _ operand => operand.targets
  | .binary _ left right => left.targets ++ right.targets
  | .variadic _ operands => Expr.targetsAll operands
  | .bind _ x value => x :: value.targets
  | .update _ x value => x :: value.targets
  | .updateElement _ x index value => x :: (index.targets ++ value.targets)
  | .ifThen cond yes => cond.targets ++ yes.targets
  | .ifElse cond yes no => cond.targets ++ yes.targets ++ no.targets
  | .loop body => Expr.targetsAll body
  | .loopFor _ first last body => first.targets ++ last.targets ++ Expr.targetsAll body
  | .dotimes _ count body => count.targets ++ Expr.targetsAll body
  | .call _ args => Expr.targetsAll args
  | .ret value => value.targets

def Expr.targetsAll : List (Expr ν) → List ν
  | [] => []
  | e :: rest => e.targets ++ Expr.targetsAll rest

end

mutual

/-- The targets that the current scope may get as new names: those of declarations and of updates
of variables, outside of the bodies of counted loops, which have a scope of their own. -/
def Expr.declared : Expr ν → List ν
  | .literal _ => []
  | .var _ => []
  | .element _ index => index.declared
  | .unary _ operand => operand.declared
  | .binary _ left right => left.declared ++ right.declared
  | .variadic _ operands => Expr.declaredAll operands
  | .bind .defvar x value => x :: value.declared
  | .bind .setq _ value => value.declared
  | .update _ x value => x :: value.declared
  | .updateElement _ _ index value => index.declared ++ value.declared
  | .ifThen cond yes => cond.declared ++ yes.declared
  | .ifElse cond yes no => cond.declared ++ yes.declared ++ no.declared
  | .loop body => Expr.declaredAll body
  | .loopFor _ first last _ => first.declared ++ last.declared
  | .dotimes _ count _ => count.declared
  | .call _ args => Expr.declaredAll args
  | .ret value => value.declared

def Expr.declaredAll : List (Expr ν) → List ν
  | [] => []
  | e :: rest => e.declared ++ Expr.declaredAll rest

end

/-- The targets of a write to a target: its own name, and those in its index. -/
def Target.targets : Target ν → List ν
  | .var x => [x]
  | .element x index => x :: index.targets

def Target.declared : Target ν → List ν
  | .var x => [x]
  | .element _ index => index.declared

mutual

theorem Expr.mem_targets_of_mem_declared {x : ν} :
    ∀ e : Expr ν, x ∈ e.declared → x ∈ e.targets
  | .literal _, h => h
  | .var _, h => h
  | .element _ index, h => index.mem_targets_of_mem_declared h
  | .unary _ operand, h => operand.mem_targets_of_mem_declared h
  | .binary _ left right, h => by
      simp only [Expr.declared, Expr.targets, List.mem_append] at h ⊢
      exact h.imp left.mem_targets_of_mem_declared right.mem_targets_of_mem_declared
  | .variadic _ operands, h => Expr.mem_targetsAll_of_mem_declaredAll operands h
  | .bind .defvar _ value, h => by
      simp only [Expr.declared, Expr.targets, List.mem_cons] at h ⊢
      exact h.imp id value.mem_targets_of_mem_declared
  | .bind .setq _ value, h => List.mem_cons_of_mem _ (value.mem_targets_of_mem_declared h)
  | .update _ _ value, h => by
      simp only [Expr.declared, Expr.targets, List.mem_cons] at h ⊢
      exact h.imp id value.mem_targets_of_mem_declared
  | .updateElement _ _ index value, h => by
      simp only [Expr.declared, Expr.targets, List.mem_cons, List.mem_append] at h ⊢
      exact .inr (h.imp index.mem_targets_of_mem_declared value.mem_targets_of_mem_declared)
  | .ifThen cond yes, h => by
      simp only [Expr.declared, Expr.targets, List.mem_append] at h ⊢
      exact h.imp cond.mem_targets_of_mem_declared yes.mem_targets_of_mem_declared
  | .ifElse cond yes no, h => by
      simp only [Expr.declared, Expr.targets, List.mem_append] at h ⊢
      exact h.imp (Or.imp cond.mem_targets_of_mem_declared yes.mem_targets_of_mem_declared)
        no.mem_targets_of_mem_declared
  | .loop body, h => Expr.mem_targetsAll_of_mem_declaredAll body h
  | .loopFor _ first last _, h => by
      simp only [Expr.declared, Expr.targets, List.mem_append] at h ⊢
      exact .inl (h.imp first.mem_targets_of_mem_declared last.mem_targets_of_mem_declared)
  | .dotimes _ count _, h => List.mem_append_left _ (count.mem_targets_of_mem_declared h)
  | .call _ args, h => Expr.mem_targetsAll_of_mem_declaredAll args h
  | .ret value, h => value.mem_targets_of_mem_declared h

theorem Expr.mem_targetsAll_of_mem_declaredAll {x : ν} :
    ∀ es : List (Expr ν), x ∈ Expr.declaredAll es → x ∈ Expr.targetsAll es
  | [], h => h
  | e :: rest, h => by
      simp only [Expr.declaredAll, Expr.targetsAll, List.mem_append] at h ⊢
      exact h.imp e.mem_targets_of_mem_declared (Expr.mem_targetsAll_of_mem_declaredAll rest)

end

end MiniLisp
