/-!
The operators and the symbols that name them. Operators are grouped by what they do with their
operands, so that an operation that serves one group cannot meet an operator of another. Main
statement: a symbol names one operator (`VariadicOp.symbol_injective`).
-/

namespace MiniLisp

inductive UnaryOp where
  | not
  | makeArray
  | print
  deriving DecidableEq

def UnaryOp.symbol : UnaryOp → String
  | not => "NOT"
  | makeArray => "MAKE-ARRAY"
  | print => "PRINT"

inductive Comparison where
  | lt
  | le
  | gt
  | ge
  deriving DecidableEq

inductive BinaryOp where
  | compare (test : Comparison)
  | mod
  | rem
  | logNor
  deriving DecidableEq

def BinaryOp.symbol : BinaryOp → String
  | compare .lt => "<"
  | compare .le => "<="
  | compare .gt => ">"
  | compare .ge => ">="
  | mod => "MOD"
  | rem => "REM"
  | logNor => "LOGNOR"

inductive Connective where
  | and
  | or
  deriving DecidableEq

inductive Arithmetic where
  | add
  | sub
  | mul
  | div
  deriving DecidableEq

inductive Extremum where
  | max
  | min
  deriving DecidableEq

inductive Bitwise where
  | and
  | ior
  | xor
  | eqv
  deriving DecidableEq

/-- Operators that take one operand or more. -/
inductive VariadicOp where
  | connective (op : Connective)
  | arithmetic (op : Arithmetic)
  | extremum (op : Extremum)
  | equal
  | notEqual
  | bitwise (op : Bitwise)
  deriving DecidableEq

namespace VariadicOp

def symbol : VariadicOp → String
  | connective .and => "AND"
  | connective .or => "OR"
  | arithmetic .add => "+"
  | arithmetic .sub => "-"
  | arithmetic .mul => "*"
  | arithmetic .div => "/"
  | extremum .max => "MAX"
  | extremum .min => "MIN"
  | equal => "="
  | notEqual => "/="
  | bitwise .and => "LOGAND"
  | bitwise .ior => "LOGIOR"
  | bitwise .xor => "LOGXOR"
  | bitwise .eqv => "LOGEQV"

def isBitwise : VariadicOp → Bool
  | bitwise _ => true
  | _ => false

def isLogical : VariadicOp → Bool
  | connective _ => true
  | _ => false

end VariadicOp

/-- `DEFVAR` binds in the current scope, `SETQ` where the name is bound. -/
inductive BindOp where
  | defvar
  | setq
  deriving DecidableEq

def BindOp.symbol : BindOp → String
  | defvar => "DEFVAR"
  | setq => "SETQ"

inductive Direction where
  | up
  | down
  deriving DecidableEq

/-- Writes to a place: of a given value, or of the stored integer moved up or down by it. -/
inductive UpdateOp where
  | setf
  | move (direction : Direction)
  deriving DecidableEq

def UpdateOp.symbol : UpdateOp → String
  | setf => "SETF"
  | move .up => "INCF"
  | move .down => "DECF"

/-! The operators of each kind in the order in which they are listed. -/

def UnaryOp.all : List UnaryOp := [.not, .makeArray, .print]

def BinaryOp.all : List BinaryOp :=
  [.compare .lt, .compare .le, .compare .gt, .compare .ge, .mod, .rem, .logNor]

def VariadicOp.all : List VariadicOp :=
  [.connective .and, .connective .or, .arithmetic .add, .arithmetic .sub, .arithmetic .mul,
    .arithmetic .div, .extremum .max, .extremum .min, .equal, .notEqual, .bitwise .and,
    .bitwise .ior, .bitwise .xor, .bitwise .eqv]

def BindOp.all : List BindOp := [.defvar, .setq]

def UpdateOp.all : List UpdateOp := [.setf, .move .up, .move .down]

theorem UnaryOp.mem_all (op : UnaryOp) : op ∈ all := by cases op <;> decide

theorem BinaryOp.mem_all (op : BinaryOp) : op ∈ all := by
  rcases op with ⟨_ | _ | _ | _⟩ | _ | _ | _ <;> decide

theorem VariadicOp.mem_all (op : VariadicOp) : op ∈ all := by
  rcases op with ⟨_ | _⟩ | ⟨_ | _ | _ | _⟩ | ⟨_ | _⟩ | _ | _ | ⟨_ | _ | _ | _⟩ <;> decide

theorem VariadicOp.symbol_injective {a b : VariadicOp} (h : a.symbol = b.symbol) : a = b := by
  have distinct : ∀ x ∈ all, ∀ y ∈ all, x.symbol = y.symbol → x = y := by decide
  exact distinct a a.mem_all b b.mem_all h

end MiniLisp
