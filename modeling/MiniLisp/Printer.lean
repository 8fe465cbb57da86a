/-!
Where printed lines go. A buffer keeps them until they are taken, standard output has sent them, and
a silent printer drops them. Main statement: printing appends (`emit_buffer`).
-/

namespace MiniLisp

inductive Printer where
  | buffer (text : String)
  | stdout (sent : String)
  | silent
  deriving DecidableEq

namespace Printer

/-- Prints a line. -/
def emit (line : String) : Printer → Printer
  | buffer text => buffer (text ++ line ++ "\n")
  | stdout sent => stdout (sent ++ line ++ "\n")
  | silent => silent

/-- The lines that a buffer holds; other printers hold none. -/
def output : Printer → String
  | buffer text => text
  | stdout _ => ""
  | silent => ""

/-- The held lines, and the printer without them. -/
def take : Printer → String × Printer
  | buffer text => (text, buffer "")
  | stdout sent => ("", stdout sent)
  | silent => ("", silent)

@[simp] theorem emit_buffer (line text : String) :
    (buffer text).emit line = buffer (text ++ line ++ "\n") := rfl

theorem take_fst (p : Printer) : p.take.1 = p.output := by cases p <;> rfl

theorem output_take (p : Printer) : p.take.2.output = "" := by cases p <;> rfl

end Printer

end MiniLisp
