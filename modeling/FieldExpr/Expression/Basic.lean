import FieldExpr.Program.Basic
import FieldExpr.Value.Text

/-!
# Expressions

What an author writes: the nodes of a program, with names instead of bindings. A
function binds a name in its body; applying it to an argument makes a
definition, every time anew.
-/

namespace FieldExpr

mutual

/-- An expression. -/
inductive Expression where
  /-- The current subject. -/
  | identity
  /-- The argument of the innermost function around it that binds this name. -/
  | var (name : String)
  | literal (value : Value) (shape : Shape)
  | immediate (inner : Expression)
  | defer (inner : Expression)
  /-- The body of a function, with the argument bound to its name. -/
  | apply (function : Function) (argument : Expression)
  | pipe (left right : Expression)
  | equalTo (tag : EqualityTag) (left right : Expression)
  | binaryMath (op : BinaryMathOp) (tag : NumericTag) (left right : Expression)
  | unaryMath (op : UnaryMathOp) (tag : NumericTag) (operand : Expression)
  | binaryLogical (op : BinaryLogicalOp) (left right : Expression)
  | not (operand : Expression)
  | diverge (condition onTrue onFalse : Expression)
  | tupleGetIndex (tuple : Expression) (index : UInt64)

/-- A function of one argument. -/
inductive Function where
  | named (parameter : String) (body : Expression)
  /-- The second function, on the result of the first. -/
  | andThen (first second : Function)

end

namespace Expression

instance : Inhabited Expression := ⟨.identity⟩

/-- The body, with a name bound to the input. -/
def letIn (name : String) (input body : Expression) : Expression :=
  .apply (.named name body) input

/-- The unit literal. -/
def unit : Expression :=
  .literal .unit .unit

/-- A literal truth value. -/
def boolean (b : Bool) : Expression :=
  .literal (.boolean b) .boolean

/-- A literal integer. -/
def integer (n : Int64) : Expression :=
  .literal (.integer n) .integer

/-- A literal decimal. -/
def decimal (d : Decimal) : Expression :=
  .literal (.decimal d) .decimal

/-- A literal string. -/
def string (s : String) : Expression :=
  .literal (.string s) .string

/-- A literal of any shape. -/
def value (v : Value) : Expression :=
  .literal v .any

/-- The first element of a pair. -/
def first (pair : Expression) : Expression :=
  .tupleGetIndex pair 0

/-- The second element of a pair. -/
def second (pair : Expression) : Expression :=
  .tupleGetIndex pair 1

end Expression

/-! ## Names -/

mutual

/-- Every name in the expression is bound by a function around it or is
among `names`. -/
def Expression.ClosedIn (names : List String) : Expression → Prop
  | .identity => True
  | .var name => name ∈ names
  | .literal _ _ => True
  | .immediate inner => inner.ClosedIn names
  | .defer inner => inner.ClosedIn names
  | .apply function argument => argument.ClosedIn names ∧ function.ClosedIn names
  | .pipe left right => left.ClosedIn names ∧ right.ClosedIn names
  | .equalTo _ left right => left.ClosedIn names ∧ right.ClosedIn names
  | .binaryMath _ _ left right => left.ClosedIn names ∧ right.ClosedIn names
  | .unaryMath _ _ operand => operand.ClosedIn names
  | .binaryLogical _ left right => left.ClosedIn names ∧ right.ClosedIn names
  | .not operand => operand.ClosedIn names
  | .diverge condition onTrue onFalse =>
    condition.ClosedIn names ∧ onTrue.ClosedIn names ∧ onFalse.ClosedIn names
  | .tupleGetIndex tuple _ => tuple.ClosedIn names

/-- Every name in the function is bound in it or is among `names`. -/
def Function.ClosedIn (names : List String) : Function → Prop
  | .named parameter body => body.ClosedIn (parameter :: names)
  | .andThen first second => first.ClosedIn names ∧ second.ClosedIn names

end

/-- An expression without free names. -/
def Expression.Closed (e : Expression) : Prop :=
  e.ClosedIn []

namespace Expression

/-! ## Text -/

/-- A node's title with its parts in parentheses. -/
def titled (title : String) (parts : List (List Char)) : List Char :=
  title.toList ++ '(' :: join parts ++ [')']
where
  /-- Parts, separated by commas. -/
  join : List (List Char) → List Char
    | [] => []
    | [part] => part
    | part :: rest => part ++ ',' :: ' ' :: join rest

/-- The outline of an expression. The body of a function is not shown. -/
def outlineText : Expression → List Char
  | .identity => "Identity".toList
  | .var name => titled "Lookup" [name.toList]
  | .literal value shape =>
    titled "Literal" [value.text ++ ':' :: ' ' :: shape.name.toList]
  | .immediate inner => titled "Immediate" [inner.outlineText]
  | .defer inner => titled "Defer" [inner.outlineText]
  | .apply _ argument =>
    "FunctionDef \x7b input: ".toList ++ argument.outlineText ++ ", .. \x7d".toList
  | .pipe left right => titled "Pipe" [left.outlineText, right.outlineText]
  | .equalTo tag left right =>
    titled "EqualTo" [left.outlineText, right.outlineText, tag.title.toList]
  | .binaryMath op tag left right =>
    titled "Math" [op.title.toList, left.outlineText, right.outlineText,
      tag.title.toList]
  | .unaryMath op tag operand =>
    titled "Math" [op.title.toList, operand.outlineText, tag.title.toList]
  | .binaryLogical op left right =>
    titled "Logical" [op.title.toList, left.outlineText, right.outlineText]
  | .not operand => titled "Not" [operand.outlineText]
  | .diverge condition onTrue onFalse =>
    titled "Diverge" [condition.outlineText, onTrue.outlineText,
      onFalse.outlineText]
  | .tupleGetIndex tuple index =>
    titled "TupleGetIndex" [tuple.outlineText, Text.natural index.toNat]

/-- The outline of an expression as a string. -/
def outline (e : Expression) : String :=
  String.ofList e.outlineText

end Expression

end FieldExpr
