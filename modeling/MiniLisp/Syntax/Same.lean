import MiniLisp.Syntax.Basic

/-!
Equality of syntax as the language sees it: the same tree with the same names, where two literals are
compared like values. A tree that holds a float literal which is not a number differs from itself.
-/

namespace MiniLisp

variable {ν : Type} [DecidableEq ν]

mutual

def Expr.same : Expr ν → Expr ν → Bool
  | .literal a, .literal b => a.same b
  | .var x, .var y => x = y
  | .element x i, .element y j => x = y && i.same j
  | .unary op a, .unary op' b => op = op' && a.same b
  | .binary op a b, .binary op' a' b' => op = op' && a.same a' && b.same b'
  | .variadic op as, .variadic op' bs => op = op' && Expr.sameAll as bs
  | .bind op x a, .bind op' y b => op = op' && x = y && a.same b
  | .update op x a, .update op' y b => op = op' && x = y && a.same b
  | .updateElement op x i a, .updateElement op' y j b =>
      op = op' && x = y && i.same j && a.same b
  | .ifThen c a, .ifThen c' a' => c.same c' && a.same a'
  | .ifElse c a b, .ifElse c' a' b' => c.same c' && a.same a' && b.same b'
  | .loop as, .loop bs => Expr.sameAll as bs
  | .loopFor x a b as, .loopFor y a' b' bs =>
      x = y && a.same a' && b.same b' && Expr.sameAll as bs
  | .dotimes x a as, .dotimes y b bs => x = y && a.same b && Expr.sameAll as bs
  | .call f as, .call g bs => f = g && Expr.sameAll as bs
  | .ret a, .ret b => a.same b
  | _, _ => false

def Expr.sameAll : List (Expr ν) → List (Expr ν) → Bool
  | [], [] => true
  | a :: as, b :: bs => a.same b && Expr.sameAll as bs
  | _, _ => false

end

def FunctionDef.same (a b : FunctionDef ν) : Bool :=
  a.name = b.name && a.params = b.params && Expr.sameAll a.body b.body

def Form.same : Form ν → Form ν → Bool
  | .expr a, .expr b => a.same b
  | .function a, .function b => a.same b
  | _, _ => false

end MiniLisp
