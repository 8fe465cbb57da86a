import MiniLisp.Interner

/-!
Syntax as it is written, and its construction with interned names. There is one constructor for each way
to make a node, also where two of them make the same one. The parts of a node are built from left to
right before the node is, and its own name is interned after that; so the order of interning is not the
order in which the names are written.
-/

namespace MiniLisp

variable {α β : Type}

mutual

/-- An expression that is written with strings for names. -/
inductive Written where
  | literal (value : Scalar)
  | bool (b : Bool)
  | ident (x : String)
  | aref (x : String) (index : Written)
  | unary (op : UnaryOp) (operand : Written)
  | binary (op : BinaryOp) (left right : Written)
  | list (op : VariadicOp) (operands : List Written)
  | varOp (op : BindOp) (x : String) (value : Written)
  | lvalueOp (op : UpdateOp) (target : WrittenPlace) (value : Written)
  | ifThen (cond yes : Written)
  | ifElse (cond yes no : Written)
  | loopForever (body : List Written)
  | loopFor (x : String) (first last : Written) (body : List Written)
  | dotimes (x : String) (count : Written) (body : List Written)
  | call (f : String) (args : List Written)
  | ret (value : Written)

inductive WrittenPlace where
  | ident (x : String)
  | element (x : String) (index : Written)

end

inductive WrittenForm where
  | expr (e : Written)
  | function (name : String) (params : List String) (body : List Written)

/-! What is written, as syntax: `true` and `false` are read as `T` and `NIL`. -/

mutual

def Written.plain : Written → Expr String
  | .literal value => .literal value
  | .bool b => .literal (.ofBool b)
  | .ident x => .var x
  | .aref x index => .element x index.plain
  | .unary op operand => .unary op operand.plain
  | .binary op left right => .binary op left.plain right.plain
  | .list op operands => .variadic op (Written.plainAll operands)
  | .varOp op x value => .bind op x value.plain
  | .lvalueOp op target value => target.plain.update op value.plain
  | .ifThen cond yes => .ifThen cond.plain yes.plain
  | .ifElse cond yes no => .ifElse cond.plain yes.plain no.plain
  | .loopForever body => .loop (Written.plainAll body)
  | .loopFor x first last body => .loopFor x first.plain last.plain (Written.plainAll body)
  | .dotimes x count body => .dotimes x count.plain (Written.plainAll body)
  | .call f args => .call f (Written.plainAll args)
  | .ret value => .ret value.plain

def WrittenPlace.plain : WrittenPlace → Target String
  | .ident x => .var x
  | .element x index => .element x index.plain

def Written.plainAll : List Written → List (Expr String)
  | [] => []
  | e :: rest => e.plain :: Written.plainAll rest

end

def WrittenForm.plain : WrittenForm → Form String
  | .expr e => .expr e.plain
  | .function name params body => .function ⟨name, params, Written.plainAll body⟩

/-! ### Building -/

/-- A construction that interns names on its way. -/
abbrev Builder (α : Type) : Type := StateM Interner α

namespace Builder

def name (s : String) : Builder Name := fun table => table.intern s

/-- Builds one after another. -/
def all (build : α → Builder β) : List α → Builder (List β)
  | [] => pure []
  | a :: rest => List.cons <$> build a <*> all build rest

end Builder

open Builder (name)

mutual

def Written.build : Written → Builder (Expr Name)
  | .literal value => pure (.literal value)
  | .bool b => pure (.literal (.ofBool b))
  | .ident x => .var <$> name x
  | .aref x index => (fun index x => .element x index) <$> index.build <*> name x
  | .unary op operand => .unary op <$> operand.build
  | .binary op left right => .binary op <$> left.build <*> right.build
  | .list op operands => .variadic op <$> Written.buildAll operands
  | .varOp op x value => (fun value x => .bind op x value) <$> value.build <*> name x
  | .lvalueOp op target value =>
      (fun target value => target.update op value) <$> target.build <*> value.build
  | .ifThen cond yes => .ifThen <$> cond.build <*> yes.build
  | .ifElse cond yes no => .ifElse <$> cond.build <*> yes.build <*> no.build
  | .loopForever body => .loop <$> Written.buildAll body
  | .loopFor x first last body =>
      (fun first last body x => .loopFor x first last body) <$>
        first.build <*> last.build <*> Written.buildAll body <*> name x
  | .dotimes x count body =>
      (fun count body x => .dotimes x count body) <$>
        count.build <*> Written.buildAll body <*> name x
  | .call f args => (fun args f => .call f args) <$> Written.buildAll args <*> name f
  | .ret value => .ret <$> value.build

def WrittenPlace.build : WrittenPlace → Builder (Target Name)
  | .ident x => .var <$> name x
  | .element x index => (fun index x => .element x index) <$> index.build <*> name x

def Written.buildAll : List Written → Builder (List (Expr Name))
  | [] => pure []
  | e :: rest => List.cons <$> e.build <*> Written.buildAll rest

end

def WrittenForm.build : WrittenForm → Builder (Form Name)
  | .expr e => .expr <$> e.build
  | .function f params body =>
      (fun body f params => .function ⟨f, params, body⟩) <$>
        Written.buildAll body <*> name f <*> Builder.all name params

end MiniLisp
