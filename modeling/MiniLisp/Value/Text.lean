import MiniLisp.Number.Decimal
import MiniLisp.Value.Basic

/-!
The text of a value, as `PRINT` shows it. A float has six places; the elements of an array stand in
square brackets with a comma and a blank between them; a text stands for itself, without quotes.
-/

namespace MiniLisp

/-- Digits after the point of a float. -/
def floatPlaces : Nat := 6

def Scalar.toText : Scalar → String
  | .nil => "NIL"
  | .t => "T"
  | .int n => toString n.toInt
  | .float x => Decimal.fixed floatPlaces x
  | .text s => s

def Value.toText : Value → String
  | .scalar s => s.toText
  | .array elements => "[" ++ ", ".intercalate (elements.toList.map Scalar.toText) ++ "]"

end MiniLisp
