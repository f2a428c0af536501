import FieldExpr.Config.Basic
import FieldExpr.Evaluation.Context
import FieldExpr.Evaluation.Machine
import FieldExpr.Log

/-!
# Evaluation

`eval` enters one node and yields a slot; `demand` also forces a cell that it
yields. Each level of nesting and each forced cell spends one unit of a budget,
and the budget is what the recursion is on: with a limit of `n` it starts at
`n + 1`, and a node that is reached without budget fails.

Evaluation is lazy. The input of a definition and the right part of a pipe yield
slots, so a deferred program is only forced where its value is demanded, and
then at most once.
-/

namespace FieldExpr

/-- What an evaluation is bounded by and rounds to. -/
structure Settings where
  /-- The deepest nesting. -/
  maxDepth : Nat
  /-- The fraction digits that decimal division keeps. -/
  decimalScale : Option Nat

namespace Run

/-- A result, or an error where there is none. -/
def orThrow {α : Type} (error : EvaluationError) : Option α → Run α
  | some a => return a
  | none => throw error

/-- Operands that an operator has no meaning for. -/
def unsupported (operator : Operator) (operands : List Value) : EvaluationError :=
  .unsupportedOperation operator (operands.map Value.kind)

/-- An operand of equality or arithmetic. A literal is rebuilt in its shape
without being entered. -/
def operand (demand : Closure → Run Value) (c : Closure) : Run Value :=
  match c.program with
  | .literal value shape =>
    orThrow (.constructionFailed shape value.kind) (shape.rebuild? value)
  | _ => demand c

/-- A truth value that an operator needs. -/
def condition (demand : Closure → Run Value) (operator : Operator)
    (c : Closure) : Run Bool := do
  let value ← demand c
  orThrow (unsupported operator [value]) value.asBoolean?

/-- The result of arithmetic, or its fault. -/
def orFault (operation : ArithmeticOp) : Except ArithmeticFault Number → Run Value
  | .ok n => return n.toValue
  | .error fault => throw (.arithmeticError operation fault)

/-- A binary operation on numbers that a tag has read. -/
def binaryMath (settings : Settings) (op : BinaryMathOp) (left right : Number) :
    Run Value :=
  match op with
  | .add => orFault (.binary op) (left.add right)
  | .multiply => orFault (.binary op) (left.multiply right)
  | .divide => orFault (.binary op) (left.divide right settings.decimalScale)
  | .modulo => orFault (.binary op) (left.modulo right)
  | .greaterThan => return .boolean (left.compare right == .gt)
  | .greaterThanEqual => return .boolean (left.compare right != .lt)

/-- The rule of each node, given how its parts are evaluated: `eval` yields
their slots and `demand` their values. -/
def node (settings : Settings) (eval : Closure → Run Slot)
    (demand : Closure → Run Value) (c : Closure) : Run Slot :=
  match c.program with
  | .identity => return .ready c.subject
  | .lookup binding => orThrow (.unboundBinding binding) (c.scope.lookup binding)
  | .literal value _ => return .ready value
  | .immediate inner => return .ready (← demand (c.child 0 inner))
  | .defer inner => suspend (c.child 0 inner)
  | .functionDef binding body input => do
    -- The input stands outside the definition and does not see its binding.
    let slot ← eval (c.child 0 input)
    eval { c.child 1 body with scope := (binding, slot) :: c.scope }
  | .pipe left right => do
    let subject ← demand (c.child 0 left)
    eval { c.child 1 right with subject }
  | .equalTo tag left right => do
    let l ← operand demand (c.child 0 left)
    let r ← operand demand (c.child 1 right)
    return .ready
      (.boolean (← orThrow (unsupported .equalTo [l, r]) (tag.equals? l r)))
  | .binaryMath op tag left right => do
    let l ← operand demand (c.child 0 left)
    let r ← operand demand (c.child 1 right)
    match tag.read? l, tag.read? r with
    | some l, some r => return .ready (← binaryMath settings op l r)
    | _, _ => throw (unsupported (.binaryMath op) [l, r])
  | .unaryMath op tag inner => do
    let value ← operand demand (c.child 0 inner)
    let number ← orThrow (unsupported .negate [value]) (tag.read? value)
    match op with
    | .negate => return .ready (← orFault (.unary op) number.negate)
  | .binaryLogical op left right => do
    let operator := match op with
      | .and => Operator.and
      | .or => Operator.or
    let l ← condition demand operator (c.child 0 left)
    -- The right operand is evaluated only if the left one does not decide.
    let decided := match op with
      | .and => !l
      | .or => l
    if decided then return .ready (.boolean l)
    else return .ready (.boolean (← condition demand operator (c.child 1 right)))
  | .not inner => do
    let value ← condition demand .not (c.child 0 inner)
    return .ready (.boolean !value)
  | .diverge chooser onTrue onFalse => do
    let choice ← condition demand .diverge (c.child 0 chooser)
    if choice then return .ready (← demand (c.child 1 onTrue))
    else return .ready (← demand (c.child 2 onFalse))
  | .tupleGetIndex tuple index => do
    let composite ← demand (c.child 0 tuple)
    let size ← orThrow (unsupported .tupleGetIndex [composite]) composite.size?
    return .ready (← orThrow (.indexOutOfRange index size)
      (composite.element? index.toNat))

mutual

/-- The slot of a closure that is entered at a depth. -/
def eval (settings : Settings) : (budget depth : Nat) → Closure → Run Slot
  | 0, _, _ => throw (.depthLimitExceeded settings.maxDepth)
  | budget + 1, depth, c => do
    enter c depth
    node settings (eval settings budget (depth + 1))
      (demand settings budget (depth + 1)) c

/-- The value of a closure that is entered at a depth. A cell that it yields is
forced one level deeper. -/
def demand (settings : Settings) : (budget depth : Nat) → Closure → Run Value
  | 0, _, _ => throw (.depthLimitExceeded settings.maxDepth)
  | budget + 1, depth, c => do
    enter c depth
    let slot ← node settings (eval settings budget (depth + 1))
      (demand settings budget (depth + 1)) c
    match slot with
    | .ready value => return value
    | .deferred number => force (demand settings budget (depth + 1)) number

end

end Run

/-- What came of an evaluation. -/
structure Evaluation where
  result : Except EvaluationError Value
  machine : Machine

/-- The settings of an evaluation: a scale that the context carries goes before
that of the configuration. -/
def Settings.ofConfig (config : EngineConfig) (context : Context) : Settings :=
  { maxDepth := config.maxDepth.toNat
    decimalScale :=
      (context.decimalScale.orElse fun _ => config.decimalScale).map UInt32.toNat }

namespace Program

/-- The closure of a whole program. -/
def closure (p : Program) (context : Context) (subject : Value) : Closure :=
  { program := p
    position := []
    scope := context.bindings.map fun (binding, value) => (binding, .ready value)
    subject }

/-- The evaluation of a program against a subject in a context, under
given settings. -/
def evaluationUnder (settings : Settings) (p : Program) (context : Context)
    (subject : Value) : Evaluation :=
  let (result, machine) :=
    (Run.demand settings (settings.maxDepth + 1) 0
      (p.closure context subject)).run {}
  ⟨result, machine⟩

/-- The evaluation of a program against a subject in a context. -/
def evaluation (config : EngineConfig) (p : Program) (context : Context)
    (subject : Value) : Evaluation :=
  p.evaluationUnder (Settings.ofConfig config context) context subject

/-- The value of a program, or why it has none. -/
def evaluate (config : EngineConfig) (p : Program) (context : Context)
    (subject : Value) : Except EvaluationError Value :=
  (p.evaluation config context subject).result

end Program

/-- What the log says about the entry into a node. -/
def Visit.message (v : Visit) : String :=
  "eval " ++ v.kind.name ++ " at depth " ++ String.ofList (Text.natural v.depth)

/-- What the log says about an evaluation: the nodes entered, and a
failure at the root. -/
def Evaluation.log (e : Evaluation) (p : Program) : List LogEntry :=
  e.machine.visits.toList.map (fun v => ⟨.trace, v.message⟩) ++
    match e.result with
    | .ok _ => []
    | .error error =>
      [⟨.debug, "Evaluation of " ++ p.kind.name ++ " failed: " ++ error.message⟩]

end FieldExpr
