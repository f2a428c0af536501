import FieldExpr.Program.Basic

/-!
# Evaluation errors

Every way in which the evaluation of a program can fail. Only a lookup without a
binding points at the program itself rather than at what it was given.
-/

namespace FieldExpr

/-- The node that has no meaning for the operands it got. -/
inductive Operator where
  | equalTo
  | binaryMath (op : BinaryMathOp)
  | negate
  | and | or | not
  | diverge
  | tupleGetIndex
  deriving DecidableEq

/-- The name of an operator. -/
def Operator.name : Operator → String
  | .equalTo => "equal_to"
  | .binaryMath op => "math." ++ op.name
  | .negate => "math.negate"
  | .and => "logical.and"
  | .or => "logical.or"
  | .not => "logical.not"
  | .diverge => "logical.diverge"
  | .tupleGetIndex => "tuple_get_index"

/-- The arithmetic that faulted. -/
inductive ArithmeticOp where
  | binary (op : BinaryMathOp)
  | unary (op : UnaryMathOp)
  deriving DecidableEq

/-- The name of an operation. -/
def ArithmeticOp.name : ArithmeticOp → String
  | .binary op => op.name
  | .unary op => op.name

/-- Why an evaluation failed. -/
inductive EvaluationError where
  /-- A lookup of a binding that has no value in scope. -/
  | unboundBinding (binding : Binding)
  /-- A literal operand that does not have the shape it was given. -/
  | constructionFailed (expected : Shape) (found : ValueKind)
  /-- Arithmetic that has no result. -/
  | arithmeticError (operation : ArithmeticOp) (fault : ArithmeticFault)
  /-- A projection past the end of a composite. -/
  | indexOutOfRange (index : UInt64) (size : Nat)
  /-- Operands that an operator has no meaning for. -/
  | unsupportedOperation (operator : Operator) (operands : List ValueKind)
  /-- An evaluation that nests deeper than its limit. -/
  | depthLimitExceeded (limit : Nat)
  deriving DecidableEq

namespace EvaluationError

/-- Whether the program is at fault rather than its input. -/
def isInternal : EvaluationError → Bool
  | .unboundBinding _ => true
  | _ => false

/-- The message of an error. -/
def message : EvaluationError → String
  | .unboundBinding b =>
    "Binding " ++ String.ofList b.text ++ " is not bound in the evaluation context"
  | .constructionFailed expected found =>
    "Cannot construct " ++ expected.name ++ " from a " ++ found.name ++ " literal"
  | .arithmeticError operation fault =>
    "Arithmetic error in " ++ operation.name ++ ": " ++ fault.message
  | .indexOutOfRange index size =>
    "Index " ++ String.ofList (Text.natural index.toNat) ++
      " out of range for tuple of size " ++ String.ofList (Text.natural size)
  | .unsupportedOperation operator operands =>
    "Unsupported operation " ++ operator.name ++ " on (" ++
      ", ".intercalate (operands.map ValueKind.name) ++ ")"
  | .depthLimitExceeded limit =>
    "Evaluation depth limit of " ++ String.ofList (Text.natural limit) ++
      " exceeded"

end EvaluationError

end FieldExpr
