import MiniLisp.Operator.Basic
import MiniLisp.Printer
import MiniLisp.Value.Cells
import MiniLisp.Value.Text

/-!
Operators on one operand. `PRINT` is the only operator with an effect: it prints the text of its
operand and yields the operand.
-/

namespace MiniLisp

/-- The array that `MAKE-ARRAY` makes for a size. -/
def makeArray (size : Value) : Except Cause Value :=
  let symbol := UnaryOp.makeArray.symbol
  match size.int? with
  | none => .error (.typeMismatch symbol "integer" size.typeName)
  | some n =>
      if n < 0 then .error (.typeMismatch symbol "non-negative integer" "negative integer")
      else match Cells.make? n.toInt.toNat with
        | .ok cells => .ok (.array cells)
        | .error e => .error e

def UnaryOp.apply (op : UnaryOp) (v : Value) (printer : Printer) : Except Cause Value × Printer :=
  match op with
  | not => (.ok (.ofBool v.isNil), printer)
  | makeArray => (MiniLisp.makeArray v, printer)
  | print => (.ok v, printer.emit v.toText)

end MiniLisp
