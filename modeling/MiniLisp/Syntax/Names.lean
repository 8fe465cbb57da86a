import MiniLisp.Syntax.Basic

/-!
The names in a piece of syntax, and the replacement of every name by another. The names stand in the order
in which a construction comes to them: those of the parts of a node from left to right, where the place
of an update is a part of it, and then its own. Main statements: replacing twice is replacing once by the composition
(`Expr.map_map`), and only the names that occur matter (`Expr.map_congr`).
-/

namespace MiniLisp

variable {ν μ κ : Type}

mutual

def Expr.names : Expr ν → List ν
  | .literal _ => []
  | .var x => [x]
  | .element x index => index.names ++ [x]
  | .unary _ operand => operand.names
  | .binary _ left right => left.names ++ right.names
  | .variadic _ operands => Expr.namesAll operands
  | .bind _ x value => value.names ++ [x]
  | .update _ x value => x :: value.names
  | .updateElement _ x index value => index.names ++ [x] ++ value.names
  | .ifThen cond yes => cond.names ++ yes.names
  | .ifElse cond yes no => cond.names ++ yes.names ++ no.names
  | .loop body => Expr.namesAll body
  | .loopFor x first last body => first.names ++ last.names ++ Expr.namesAll body ++ [x]
  | .dotimes x count body => count.names ++ Expr.namesAll body ++ [x]
  | .call f args => Expr.namesAll args ++ [f]
  | .ret value => value.names

def Expr.namesAll : List (Expr ν) → List ν
  | [] => []
  | e :: rest => e.names ++ Expr.namesAll rest

end

def FunctionDef.names (fn : FunctionDef ν) : List ν :=
  Expr.namesAll fn.body ++ [fn.name] ++ fn.params

def Form.names : Form ν → List ν
  | .expr e => e.names
  | .function fn => fn.names

mutual

def Expr.map (f : ν → μ) : Expr ν → Expr μ
  | .literal value => .literal value
  | .var x => .var (f x)
  | .element x index => .element (f x) (index.map f)
  | .unary op operand => .unary op (operand.map f)
  | .binary op left right => .binary op (left.map f) (right.map f)
  | .variadic op operands => .variadic op (Expr.mapAll f operands)
  | .bind op x value => .bind op (f x) (value.map f)
  | .update op x value => .update op (f x) (value.map f)
  | .updateElement op x index value => .updateElement op (f x) (index.map f) (value.map f)
  | .ifThen cond yes => .ifThen (cond.map f) (yes.map f)
  | .ifElse cond yes no => .ifElse (cond.map f) (yes.map f) (no.map f)
  | .loop body => .loop (Expr.mapAll f body)
  | .loopFor x first last body =>
      .loopFor (f x) (first.map f) (last.map f) (Expr.mapAll f body)
  | .dotimes x count body => .dotimes (f x) (count.map f) (Expr.mapAll f body)
  | .call g args => .call (f g) (Expr.mapAll f args)
  | .ret value => .ret (value.map f)

def Expr.mapAll (f : ν → μ) : List (Expr ν) → List (Expr μ)
  | [] => []
  | e :: rest => e.map f :: Expr.mapAll f rest

end

def Target.names : Target ν → List ν
  | .var x => [x]
  | .element x index => index.names ++ [x]

def Target.map (f : ν → μ) : Target ν → Target μ
  | .var x => .var (f x)
  | .element x index => .element (f x) (index.map f)

def FunctionDef.map (f : ν → μ) (fn : FunctionDef ν) : FunctionDef μ :=
  ⟨f fn.name, fn.params.map f, Expr.mapAll f fn.body⟩

def Form.map (f : ν → μ) : Form ν → Form μ
  | .expr e => .expr (e.map f)
  | .function fn => .function (fn.map f)

mutual

theorem Expr.map_map (f : ν → μ) (g : μ → κ) : ∀ e : Expr ν, (e.map f).map g = e.map (g ∘ f)
  | .literal _ => rfl
  | .var _ => rfl
  | .element _ index => by simp [Expr.map, Expr.map_map f g index]
  | .unary _ operand => by simp [Expr.map, Expr.map_map f g operand]
  | .binary _ left right => by simp [Expr.map, Expr.map_map f g left, Expr.map_map f g right]
  | .variadic _ operands => by simp [Expr.map, Expr.mapAll_mapAll f g operands]
  | .bind _ _ value => by simp [Expr.map, Expr.map_map f g value]
  | .update _ _ value => by simp [Expr.map, Expr.map_map f g value]
  | .updateElement _ _ index value => by
      simp [Expr.map, Expr.map_map f g index, Expr.map_map f g value]
  | .ifThen cond yes => by simp [Expr.map, Expr.map_map f g cond, Expr.map_map f g yes]
  | .ifElse cond yes no => by
      simp [Expr.map, Expr.map_map f g cond, Expr.map_map f g yes, Expr.map_map f g no]
  | .loop body => by simp [Expr.map, Expr.mapAll_mapAll f g body]
  | .loopFor _ first last body => by
      simp [Expr.map, Expr.map_map f g first, Expr.map_map f g last, Expr.mapAll_mapAll f g body]
  | .dotimes _ count body => by
      simp [Expr.map, Expr.map_map f g count, Expr.mapAll_mapAll f g body]
  | .call _ args => by simp [Expr.map, Expr.mapAll_mapAll f g args]
  | .ret value => by simp [Expr.map, Expr.map_map f g value]

theorem Expr.mapAll_mapAll (f : ν → μ) (g : μ → κ) :
    ∀ es : List (Expr ν), Expr.mapAll g (Expr.mapAll f es) = Expr.mapAll (g ∘ f) es
  | [] => rfl
  | e :: rest => by simp [Expr.mapAll, Expr.map_map f g e, Expr.mapAll_mapAll f g rest]

end

mutual

theorem Expr.map_congr {f g : ν → μ} :
    ∀ e : Expr ν, (∀ x ∈ e.names, f x = g x) → e.map f = e.map g
  | .literal _, _ => rfl
  | .var _, h => by simp_all [Expr.map, Expr.names]
  | .element _ index, h => by
      simp only [Expr.names, List.forall_mem_append, List.forall_mem_singleton] at h
      simp [Expr.map, Expr.map_congr index h.1, h.2]
  | .unary _ operand, h => by simp [Expr.map, Expr.map_congr operand h]
  | .binary _ left right, h => by
      simp only [Expr.names, List.forall_mem_append] at h
      simp [Expr.map, Expr.map_congr left h.1, Expr.map_congr right h.2]
  | .variadic _ operands, h => by simp [Expr.map, Expr.mapAll_congr operands h]
  | .bind _ _ value, h => by
      simp only [Expr.names, List.forall_mem_append, List.forall_mem_singleton] at h
      simp [Expr.map, Expr.map_congr value h.1, h.2]
  | .update _ _ value, h => by
      simp only [Expr.names, List.forall_mem_cons] at h
      simp [Expr.map, h.1, Expr.map_congr value h.2]
  | .updateElement _ _ index value, h => by
      simp only [Expr.names, List.forall_mem_append, List.forall_mem_singleton] at h
      simp [Expr.map, Expr.map_congr index h.1.1, h.1.2, Expr.map_congr value h.2]
  | .ifThen cond yes, h => by
      simp only [Expr.names, List.forall_mem_append] at h
      simp [Expr.map, Expr.map_congr cond h.1, Expr.map_congr yes h.2]
  | .ifElse cond yes no, h => by
      simp only [Expr.names, List.forall_mem_append] at h
      simp [Expr.map, Expr.map_congr cond h.1.1, Expr.map_congr yes h.1.2, Expr.map_congr no h.2]
  | .loop body, h => by simp [Expr.map, Expr.mapAll_congr body h]
  | .loopFor _ first last body, h => by
      simp only [Expr.names, List.forall_mem_append, List.forall_mem_singleton] at h
      simp [Expr.map, Expr.map_congr first h.1.1.1, Expr.map_congr last h.1.1.2,
        Expr.mapAll_congr body h.1.2, h.2]
  | .dotimes _ count body, h => by
      simp only [Expr.names, List.forall_mem_append, List.forall_mem_singleton] at h
      simp [Expr.map, Expr.map_congr count h.1.1, Expr.mapAll_congr body h.1.2, h.2]
  | .call _ args, h => by
      simp only [Expr.names, List.forall_mem_append, List.forall_mem_singleton] at h
      simp [Expr.map, Expr.mapAll_congr args h.1, h.2]
  | .ret value, h => by simp [Expr.map, Expr.map_congr value h]

theorem Expr.mapAll_congr {f g : ν → μ} :
    ∀ es : List (Expr ν), (∀ x ∈ Expr.namesAll es, f x = g x) →
      Expr.mapAll f es = Expr.mapAll g es
  | [], _ => rfl
  | e :: rest, h => by
      simp only [Expr.namesAll, List.forall_mem_append] at h
      simp [Expr.mapAll, Expr.map_congr e h.1, Expr.mapAll_congr rest h.2]

end

end MiniLisp
