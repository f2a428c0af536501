import FieldExpr.Capability.Equality
import FieldExpr.Text.Digits
import FieldExpr.Capability.Shape

/-!
# Programs

A program is a tree of nodes without closures: all it needs is in its literals
or bound in its context. The children of a node are listed in the order in
which evaluation reaches them, and a node's position is the list of child
numbers that leads to it.
-/

namespace FieldExpr

/-- The identifier of a lexical slot. -/
structure Binding where
  id : UInt64
  deriving DecidableEq

/-- The written form of a binding. -/
def Binding.text (b : Binding) : List Char :=
  '$' :: Text.natural b.id.toNat

/-- The operations of two numbers. -/
inductive BinaryMathOp where
  | add | multiply | divide | modulo | greaterThan | greaterThanEqual
  deriving DecidableEq, Repr

/-- The operations of one number. -/
inductive UnaryMathOp where
  | negate
  deriving DecidableEq, Repr

/-- The connectives of two truth values; the right one is only asked when the
left one does not decide. -/
inductive BinaryLogicalOp where
  | and | or
  deriving DecidableEq, Repr

/-- A program. -/
inductive Program where
  /-- The current subject. -/
  | identity
  /-- What a binding holds. -/
  | lookup (binding : Binding)
  /-- The inner program, computed at once. -/
  | immediate (inner : Program)
  /-- The inner program, put off until its value is demanded. -/
  | defer (inner : Program)
  /-- The body, with the binding holding the outcome of the input. -/
  | functionDef (binding : Binding) (body input : Program)
  /-- A value, and the shape it has as an operand. -/
  | literal (value : Value) (shape : Shape)
  /-- The right program, on the result of the left one as its subject. -/
  | pipe (left right : Program)
  /-- Equality under a tag. -/
  | equalTo (tag : EqualityTag) (left right : Program)
  /-- Arithmetic or order of two operands under a tag. -/
  | binaryMath (op : BinaryMathOp) (tag : NumericTag) (left right : Program)
  /-- Arithmetic on one operand under a tag. -/
  | unaryMath (op : UnaryMathOp) (tag : NumericTag) (operand : Program)
  /-- A connective. -/
  | binaryLogical (op : BinaryLogicalOp) (left right : Program)
  /-- Negation of a truth value. -/
  | not (operand : Program)
  /-- One of two programs, chosen by a condition. -/
  | diverge (condition onTrue onFalse : Program)
  /-- The element at a position of a composite. -/
  | tupleGetIndex (tuple : Program) (index : UInt64)

/-- The kind of a node, which diagnostics and the encoded form name. -/
inductive NodeKind where
  | identity | lookup | immediate | defer | functionDef | literal | pipe
  | equalTo | math | logical
  | tupleGetIndex
  deriving DecidableEq, Repr

/-! ## Names -/

/-- The name of an operation. -/
def BinaryMathOp.name : BinaryMathOp → String
  | .add => "add"
  | .multiply => "multiply"
  | .divide => "divide"
  | .modulo => "modulo"
  | .greaterThan => "greater_than"
  | .greaterThanEqual => "greater_than_equal"

/-- The operation with this name. -/
def BinaryMathOp.ofName? (name : String) : Option BinaryMathOp :=
  [.add, .multiply, .divide, .modulo, .greaterThan, .greaterThanEqual].find?
    (·.name == name)

/-- The operation's title in an outline. -/
def BinaryMathOp.title : BinaryMathOp → String
  | .add => "Add"
  | .multiply => "Multiply"
  | .divide => "Divide"
  | .modulo => "Modulo"
  | .greaterThan => "GreaterThan"
  | .greaterThanEqual => "GreaterThanEqual"

/-- The name of an operation. -/
def UnaryMathOp.name : UnaryMathOp → String
  | .negate => "negate"

/-- The operation with this name. -/
def UnaryMathOp.ofName? (name : String) : Option UnaryMathOp :=
  [.negate].find? (·.name == name)

/-- The operation's title in an outline. -/
def UnaryMathOp.title : UnaryMathOp → String
  | .negate => "Negate"

/-- The name of a connective. -/
def BinaryLogicalOp.name : BinaryLogicalOp → String
  | .and => "and"
  | .or => "or"

/-- The connective with this name. -/
def BinaryLogicalOp.ofName? (name : String) : Option BinaryLogicalOp :=
  [.and, .or].find? (·.name == name)

/-- The connective's title in an outline. -/
def BinaryLogicalOp.title : BinaryLogicalOp → String
  | .and => "And"
  | .or => "Or"

/-- The name of a kind. -/
def NodeKind.name : NodeKind → String
  | .identity => "identity"
  | .lookup => "lookup"
  | .immediate => "immediate"
  | .defer => "defer"
  | .functionDef => "function_def"
  | .literal => "literal"
  | .pipe => "pipe"
  | .equalTo => "equal_to"
  | .math => "math"
  | .logical => "logical"
  | .tupleGetIndex => "tuple_get_index"

/-- The kind with this name. -/
def NodeKind.ofName? (name : String) : Option NodeKind :=
  [.identity, .lookup, .immediate, .defer, .functionDef, .literal, .pipe,
    .equalTo, .math, .logical, .tupleGetIndex].find? (·.name == name)

namespace Program

instance : Inhabited Program := ⟨.identity⟩

/-- The kind of the root. -/
def kind : Program → NodeKind
  | .identity => .identity
  | .lookup _ => .lookup
  | .immediate _ => .immediate
  | .defer _ => .defer
  | .functionDef _ _ _ => .functionDef
  | .literal _ _ => .literal
  | .pipe _ _ => .pipe
  | .equalTo _ _ _ => .equalTo
  | .binaryMath _ _ _ _ => .math
  | .unaryMath _ _ _ => .math
  | .binaryLogical _ _ _ => .logical
  | .not _ => .logical
  | .diverge _ _ _ => .logical
  | .tupleGetIndex _ _ => .tupleGetIndex

/-- The direct parts of a program, in the order of evaluation: the input of a
definition before its body. -/
def children : Program → List Program
  | .identity => []
  | .lookup _ => []
  | .immediate inner => [inner]
  | .defer inner => [inner]
  | .functionDef _ body input => [input, body]
  | .literal _ _ => []
  | .pipe left right => [left, right]
  | .equalTo _ left right => [left, right]
  | .binaryMath _ _ left right => [left, right]
  | .unaryMath _ _ operand => [operand]
  | .binaryLogical _ left right => [left, right]
  | .not operand => [operand]
  | .diverge condition onTrue onFalse => [condition, onTrue, onFalse]
  | .tupleGetIndex tuple _ => [tuple]

/-- The number of nodes. -/
def nodeCount : Program → Nat
  | .identity => 1
  | .lookup _ => 1
  | .immediate inner => 1 + inner.nodeCount
  | .defer inner => 1 + inner.nodeCount
  | .functionDef _ body input => 1 + (input.nodeCount + body.nodeCount)
  | .literal _ _ => 1
  | .pipe left right => 1 + (left.nodeCount + right.nodeCount)
  | .equalTo _ left right => 1 + (left.nodeCount + right.nodeCount)
  | .binaryMath _ _ left right => 1 + (left.nodeCount + right.nodeCount)
  | .unaryMath _ _ operand => 1 + operand.nodeCount
  | .binaryLogical _ left right => 1 + (left.nodeCount + right.nodeCount)
  | .not operand => 1 + operand.nodeCount
  | .diverge condition onTrue onFalse =>
    1 + (condition.nodeCount + onTrue.nodeCount + onFalse.nodeCount)
  | .tupleGetIndex tuple _ => 1 + tuple.nodeCount

/-- The number of nodes on the longest path from the root to a leaf. -/
def depth : Program → Nat
  | .identity => 1
  | .lookup _ => 1
  | .immediate inner => 1 + inner.depth
  | .defer inner => 1 + inner.depth
  | .functionDef _ body input => 1 + max input.depth body.depth
  | .literal _ _ => 1
  | .pipe left right => 1 + max left.depth right.depth
  | .equalTo _ left right => 1 + max left.depth right.depth
  | .binaryMath _ _ left right => 1 + max left.depth right.depth
  | .unaryMath _ _ operand => 1 + operand.depth
  | .binaryLogical _ left right => 1 + max left.depth right.depth
  | .not operand => 1 + operand.depth
  | .diverge condition onTrue onFalse =>
    1 + max condition.depth (max onTrue.depth onFalse.depth)
  | .tupleGetIndex tuple _ => 1 + tuple.depth

/-- The two programs are the same up to literals that are the same. -/
def same : Program → Program → Bool
  | .identity, .identity => true
  | .lookup a, .lookup b => a == b
  | .immediate a, .immediate b => a.same b
  | .defer a, .defer b => a.same b
  | .functionDef a aBody aInput, .functionDef b bBody bInput =>
    a == b && aBody.same bBody && aInput.same bInput
  | .literal a aShape, .literal b bShape => a.same b && aShape == bShape
  | .pipe a a', .pipe b b' => a.same b && a'.same b'
  | .equalTo aTag a a', .equalTo bTag b b' => aTag == bTag && a.same b && a'.same b'
  | .binaryMath aOp aTag a a', .binaryMath bOp bTag b b' =>
    aOp == bOp && aTag == bTag && a.same b && a'.same b'
  | .unaryMath aOp aTag a, .unaryMath bOp bTag b =>
    aOp == bOp && aTag == bTag && a.same b
  | .binaryLogical aOp a a', .binaryLogical bOp b b' =>
    aOp == bOp && a.same b && a'.same b'
  | .not a, .not b => a.same b
  | .diverge a a' a'', .diverge b b' b'' => a.same b && a'.same b' && a''.same b''
  | .tupleGetIndex a aIndex, .tupleGetIndex b bIndex => a.same b && aIndex == bIndex
  | _, _ => false

/-- A node's place in a program: the child numbers on the way to it, the
last step first. -/
abbrev Position := List Nat

/-- The nodes of a program that stands at a position, each with its own
position: the root, and then the nodes of its children in order. -/
def nodes (position : Position) : Program → List (Position × Program)
  | .identity => [(position, .identity)]
  | .lookup b => [(position, .lookup b)]
  | .immediate inner => (position, .immediate inner) :: inner.nodes (0 :: position)
  | .defer inner => (position, .defer inner) :: inner.nodes (0 :: position)
  | .functionDef b body input =>
    (position, .functionDef b body input) ::
      (input.nodes (0 :: position) ++ body.nodes (1 :: position))
  | .literal value shape => [(position, .literal value shape)]
  | .pipe left right =>
    (position, .pipe left right) ::
      (left.nodes (0 :: position) ++ right.nodes (1 :: position))
  | .equalTo tag left right =>
    (position, .equalTo tag left right) ::
      (left.nodes (0 :: position) ++ right.nodes (1 :: position))
  | .binaryMath op tag left right =>
    (position, .binaryMath op tag left right) ::
      (left.nodes (0 :: position) ++ right.nodes (1 :: position))
  | .unaryMath op tag operand =>
    (position, .unaryMath op tag operand) :: operand.nodes (0 :: position)
  | .binaryLogical op left right =>
    (position, .binaryLogical op left right) ::
      (left.nodes (0 :: position) ++ right.nodes (1 :: position))
  | .not operand => (position, .not operand) :: operand.nodes (0 :: position)
  | .diverge condition onTrue onFalse =>
    (position, .diverge condition onTrue onFalse) ::
      (condition.nodes (0 :: position) ++ onTrue.nodes (1 :: position) ++
        onFalse.nodes (2 :: position))
  | .tupleGetIndex tuple index =>
    (position, .tupleGetIndex tuple index) :: tuple.nodes (0 :: position)

end Program

end FieldExpr
