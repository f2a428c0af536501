import FieldExpr.Evaluation.Evaluator

/-!
# Rules of strict nodes

What a strict node makes of the values of its operands, as plain functions that
know neither cells nor depth. The evaluator's rule of every such node is: demand
the operands in order, then apply the function. The equations `node_*` say so,
and later proofs cite them instead of unfolding the evaluator.
-/

namespace FieldExpr

namespace Rule

/-- A result, or an error where there is none. -/
def orFail {α : Type} (error : EvaluationError) :
    Option α → Except EvaluationError α
  | some a => .ok a
  | none => .error error

/-- A literal operand, rebuilt in its shape. -/
def literal (shape : Shape) (v : Value) : Except EvaluationError Value :=
  orFail (.constructionFailed shape v.kind) (shape.rebuild? v)

/-- A truth value that an operator needs. -/
def condition (operator : Operator) (v : Value) : Except EvaluationError Bool :=
  orFail (Run.unsupported operator [v]) v.asBoolean?

/-- Equality under a tag. -/
def equalTo (tag : EqualityTag) (l r : Value) : Except EvaluationError Bool :=
  orFail (Run.unsupported .equalTo [l, r]) (tag.equals? l r)

/-- The result of arithmetic, or its fault. -/
def orFault (operation : ArithmeticOp) :
    Except ArithmeticFault Number → Except EvaluationError Value
  | .ok n => .ok n.toValue
  | .error fault => .error (.arithmeticError operation fault)

/-- A binary operation on two numbers. -/
def arithmetic (settings : Settings) (op : BinaryMathOp) (l r : Number) :
    Except EvaluationError Value :=
  match op with
  | .add => orFault (.binary op) (l.add r)
  | .multiply => orFault (.binary op) (l.multiply r)
  | .divide => orFault (.binary op) (l.divide r settings.decimalScale)
  | .modulo => orFault (.binary op) (l.modulo r)
  | .greaterThan => .ok (.boolean (l.compare r == .gt))
  | .greaterThanEqual => .ok (.boolean (l.compare r != .lt))

/-- A binary operation under a tag. -/
def binaryMath (settings : Settings) (op : BinaryMathOp) (tag : NumericTag)
    (l r : Value) : Except EvaluationError Value :=
  match tag.read? l, tag.read? r with
  | some a, some b => arithmetic settings op a b
  | _, _ => .error (Run.unsupported (.binaryMath op) [l, r])

/-- A unary operation under a tag. -/
def unaryMath (op : UnaryMathOp) (tag : NumericTag) (v : Value) :
    Except EvaluationError Value := do
  let number ← orFail (Run.unsupported .negate [v]) (tag.read? v)
  match op with
  | .negate => orFault (.unary op) number.negate

/-- The name of a connective in errors. -/
def connective : BinaryLogicalOp → Operator
  | .and => .and
  | .or => .or

/-- Whether the left operand of a connective settles it. -/
def decides : BinaryLogicalOp → Bool → Bool
  | .and, l => !l
  | .or, l => l

/-- The element at a position of a composite. -/
def select (index : UInt64) (v : Value) : Except EvaluationError Value := do
  let size ← orFail (Run.unsupported .tupleGetIndex [v]) v.size?
  orFail (.indexOutOfRange index size) (v.element? index.toNat)

/-! ## Errors of rules -/

/-- The errors that strict nodes end in over their operands. -/
inductive OperandError : EvaluationError → Prop
  | construction (expected : Shape) (found : ValueKind) :
    OperandError (.constructionFailed expected found)
  | arithmetic (operation : ArithmeticOp) (fault : ArithmeticFault) :
    OperandError (.arithmeticError operation fault)
  | unsupported (operator : Operator) (operands : List Value) :
    OperandError (Run.unsupported operator operands)
  | position (index : UInt64) (size : Nat) :
    OperandError (.indexOutOfRange index size)

theorem OperandError.isInternal {e : EvaluationError}
    (operand : OperandError e) : e.isInternal = false := by
  cases operand <;> rfl

theorem OperandError.ne_depthLimitExceeded {e : EvaluationError}
    (operand : OperandError e) (limit : Nat) :
    e ≠ .depthLimitExceeded limit := by
  rintro rfl
  cases operand

/-- A result whose error, if it has one, is an operand's. -/
def Blameless {α : Type} (x : Except EvaluationError α) : Prop :=
  ∀ error, x = .error error → OperandError error

namespace Blameless

theorem ok {α : Type} (a : α) : Blameless (.ok a) := by
  intro error h
  cases h

theorem error {α : Type} {e : EvaluationError} (h : OperandError e) :
    Blameless (.error e : Except _ α) := by
  intro error same
  cases same
  exact h

theorem orFail {α : Type} {e : EvaluationError} (h : OperandError e)
    (x : Option α) :
    Blameless (Rule.orFail e x) := by
  cases x with
  | none => exact error h
  | some a => exact ok a

theorem orFault (operation : ArithmeticOp) (x : Except ArithmeticFault Number) :
    Blameless (Rule.orFault operation x) := by
  cases x with
  | error fault => exact error (.arithmetic operation fault)
  | ok n => exact ok _

theorem arithmetic (settings : Settings) (op : BinaryMathOp) (l r : Number) :
    Blameless (Rule.arithmetic settings op l r) := by
  cases op <;> first | exact orFault _ _ | exact ok _

theorem literal (shape : Shape) (v : Value) : Blameless (Rule.literal shape v) :=
  orFail (.construction _ _) _

theorem condition (operator : Operator) (v : Value) :
    Blameless (Rule.condition operator v) :=
  orFail (.unsupported _ _) _

theorem equalTo (tag : EqualityTag) (l r : Value) :
    Blameless (Rule.equalTo tag l r) :=
  orFail (.unsupported _ _) _

theorem binaryMath (settings : Settings) (op : BinaryMathOp) (tag : NumericTag)
    (l r : Value) :
    Blameless (Rule.binaryMath settings op tag l r) := by
  unfold Rule.binaryMath
  split
  · exact arithmetic _ _ _ _
  · exact error (.unsupported _ _)

theorem unaryMath (op : UnaryMathOp) (tag : NumericTag) (v : Value) :
    Blameless (Rule.unaryMath op tag v) := by
  cases op
  show Blameless (Rule.orFail (Run.unsupported .negate [v]) (tag.read? v) >>=
      fun number =>
    Rule.orFault (.unary .negate) number.negate)
  cases tag.read? v with
  | none => exact error (.unsupported _ _)
  | some number => exact orFault _ _

theorem select (index : UInt64) (v : Value) : Blameless (Rule.select index v) := by
  unfold Rule.select
  cases v.size? with
  | none => exact error (.unsupported _ _)
  | some size => exact orFail (.position index size) _

end Blameless

end Rule

namespace Run

/-- A result that is known already, as a run that changes nothing. -/
def lift {α : Type} (x : Except EvaluationError α) : Run α :=
  ExceptT.mk (pure x)

/-- A run from a machine: its result, and the machine after it. -/
def on {α : Type} (x : Run α) (m : Machine) : Except EvaluationError α × Machine :=
  x.run m

/-! ## Running -/

section

variable {α β : Type} (m : Machine)

@[simp]
theorem on_lift (x : Except EvaluationError α) : (lift x).on m = (x, m) := rfl

theorem on_bind (x : Run α) (f : α → Run β) :
    (x >>= f).on m = match x.on m with
      | (.ok a, n) => (f a).on n
      | (.error error, n) => (.error error, n) := by
  change (x.run >>= ExceptT.bindCont f) m = _
  change (match x.run m with | (result, n) => ExceptT.bindCont f result n) = _
  unfold on
  cases x.run m with
  | mk result n => cases result <;> rfl

/-- What follows a failed run changes neither its error nor the machine. -/
theorem failed_bind {x : Run α} {error : EvaluationError} (f : α → Run β)
    (failed : (x.on m).1 = .error error) : ((x >>= f).on m).1 = .error error := by
  rw [on_bind]
  generalize x.on m = ended at failed
  obtain ⟨result, n⟩ := ended
  cases failed
  rfl

@[simp]
theorem on_get : (get : Run Machine).on m = (.ok m, m) := rfl

@[simp]
theorem on_enter (c : Closure) (depth : Nat) :
    (enter c depth).on m =
      (.ok (),
        { m with visits := m.visits.push ⟨c.position, c.program.kind,
        depth⟩ }) := rfl

@[simp]
theorem on_suspend (c : Closure) :
    (suspend c).on m =
      (.ok (.deferred m.cells.size),
      { m with cells := m.cells.push ⟨c, none⟩ }) := rfl

end

/-- A cell with its outcome. -/
def remember (m : Machine) (number : Nat)
    (outcome : Except EvaluationError Value) : Machine :=
  { m with cells := m.cells.modify number fun cell =>
    { cell with outcome := some outcome } }

/-- A number without a cell stands for unit. -/
theorem on_force_absent {demand : Closure → Run Value} {m : Machine} {number : Nat}
    (absent : m.cells[number]? = none) :
    (force demand number).on m = (.ok .unit, m) := by
  unfold force
  rw [on_bind, on_get]
  dsimp only
  rw [absent]
  rfl

/-- A cell that remembers its outcome gives it back. -/
theorem on_force_known {demand : Closure → Run Value} {m : Machine}
    {number : Nat} {cell : Cell} {outcome : Except EvaluationError Value}
    (found : m.cells[number]? = some cell)
    (known : cell.outcome = some outcome) :
    (force demand number).on m = (outcome, m) := by
  unfold force
  rw [on_bind, on_get]
  dsimp only
  rw [found]
  dsimp only
  rw [known]
  rfl

/-- A cell without an outcome takes that of its closure, and remembers it. -/
theorem on_force_open {demand : Closure → Run Value} {m : Machine}
    {number : Nat} {cell : Cell} (found : m.cells[number]? = some cell)
    (unknown : cell.outcome = none) :
    (force demand number).on m =
      (((demand cell.closure).on m).1,
        remember ((demand cell.closure).on m).2 number
          ((demand cell.closure).on m).1) := by
  unfold force
  rw [on_bind, on_get]
  dsimp only
  rw [found]
  dsimp only
  rw [unknown]
  rfl

/-! ## The rules of the evaluator -/

section

variable (settings : Settings) (eval : Closure → Run Slot)
    (demand : Closure → Run Value)

/-- An operand is a literal that is rebuilt, or else a value that is demanded. -/
theorem operand_literal (value : Value) (shape : Shape)
    (position : Program.Position) (scope : Scope) (subject : Value) :
    operand demand ⟨.literal value shape, position, scope, subject⟩ =
      lift (Rule.literal shape value) := by
  change orThrow _ (shape.rebuild? value) = _
  unfold Rule.literal
  cases shape.rebuild? value <;> rfl

theorem operand_of_not_literal {c : Closure}
    (h : ∀ value shape, c.program ≠ .literal value shape) :
    operand demand c = demand c := by
  unfold operand
  split
  · exact absurd ‹_› (h _ _)
  · rfl

theorem condition_eq (operator : Operator) (c : Closure) :
    condition demand operator c = demand c >>=
    fun v => lift (Rule.condition operator v) := by
  unfold condition
  congr 1
  funext v
  unfold Rule.condition
  cases v.asBoolean? <;> rfl

variable (position : Program.Position) (scope : Scope) (subject : Value)

theorem node_lookup (b : Binding) :
    node settings eval demand ⟨.lookup b, position, scope, subject⟩ =
      lift (Rule.orFail (.unboundBinding b) (scope.lookup b)) := by
  change orThrow _ (scope.lookup b) = _
  cases scope.lookup b <;> rfl

theorem node_lookup_absent {b : Binding} (absent : scope.lookup b = none)
    (m : Machine) :
    ((node settings eval demand ⟨.lookup b, position, scope, subject⟩).on m).1 =
      .error (.unboundBinding b) := by
  rw [node_lookup, absent]
  rfl

theorem node_equalTo (tag : EqualityTag) (l r : Program) :
    node settings eval demand ⟨.equalTo tag l r, position, scope, subject⟩ = do
      let a ← operand demand ⟨l, 0 :: position, scope, subject⟩
      let b ← operand demand ⟨r, 1 :: position, scope, subject⟩
      return .ready (.boolean (← lift (Rule.equalTo tag a b))) := by
  change (do
    let a ← operand demand ⟨l, 0 :: position, scope, subject⟩
    let b ← operand demand ⟨r, 1 :: position, scope, subject⟩
    return .ready
      (.boolean (← orThrow (unsupported .equalTo [a, b]) (tag.equals? a b))) :
    Run Slot) = _
  congr 1; funext a; congr 1; funext b
  unfold Rule.equalTo
  cases tag.equals? a b <;> rfl

theorem node_binaryMath (op : BinaryMathOp) (tag : NumericTag) (l r : Program) :
    node settings eval demand ⟨.binaryMath op tag l r, position, scope,
      subject⟩ = do
      let a ← operand demand ⟨l, 0 :: position, scope, subject⟩
      let b ← operand demand ⟨r, 1 :: position, scope, subject⟩
      return .ready (← lift (Rule.binaryMath settings op tag a b)) := by
  change (do
    let a ← operand demand ⟨l, 0 :: position, scope, subject⟩
    let b ← operand demand ⟨r, 1 :: position, scope, subject⟩
    match tag.read? a, tag.read? b with
    | some a, some b => return .ready (← binaryMath settings op a b)
    | _, _ => throw (unsupported (.binaryMath op) [a, b]) : Run Slot) = _
  congr 1; funext a; congr 1; funext b
  unfold Rule.binaryMath
  cases tag.read? a with
  | none => rfl
  | some a =>
    cases tag.read? b with
    | none => rfl
    | some b =>
      dsimp only
      have same : binaryMath settings op a b =
          lift (Rule.arithmetic settings op a b) := by
        have fault : ∀ operation result, orFault operation result =
            lift (Rule.orFault operation result) := by
          intro operation result
          cases result <;> rfl
        cases op <;> first | exact fault _ _ | rfl
      rw [same]

theorem node_unaryMath (op : UnaryMathOp) (tag : NumericTag) (inner : Program) :
    node settings eval demand ⟨.unaryMath op tag inner, position, scope,
      subject⟩ = do
      let v ← operand demand ⟨inner, 0 :: position, scope, subject⟩
      return .ready (← lift (Rule.unaryMath op tag v)) := by
  cases op
  change (do
    let v ← operand demand ⟨inner, 0 :: position, scope, subject⟩
    let number ← orThrow (unsupported .negate [v]) (tag.read? v)
    return .ready (← orFault (.unary .negate) number.negate) : Run Slot) = _
  congr 1; funext v
  unfold Rule.unaryMath
  cases tag.read? v with
  | none => rfl
  | some number =>
    change (do return .ready (← orFault
        (.unary .negate) number.negate) : Run Slot) =
      (do return .ready (← lift (Rule.orFault (.unary .negate) number.negate)))
    cases number.negate <;> rfl

theorem node_binaryLogical (op : BinaryLogicalOp) (l r : Program) :
    node settings eval demand ⟨.binaryLogical op l r, position, scope, subject⟩ = do
      let a ← condition demand (Rule.connective op)
        ⟨l, 0 :: position, scope, subject⟩
      if Rule.decides op a then return .ready (.boolean a)
      else
        let b ← condition demand (Rule.connective op)
          ⟨r, 1 :: position, scope, subject⟩
        return .ready (.boolean b) := by
  cases op <;> rfl

theorem node_tupleGetIndex (tuple : Program) (index : UInt64) :
    node settings eval demand ⟨.tupleGetIndex tuple index, position, scope,
      subject⟩ = do
      let v ← demand ⟨tuple, 0 :: position, scope, subject⟩
      return .ready (← lift (Rule.select index v)) := by
  change (do
    let v ← demand ⟨tuple, 0 :: position, scope, subject⟩
    let size ← orThrow (unsupported .tupleGetIndex [v]) v.size?
    return .ready (← orThrow (.indexOutOfRange index size)
      (v.element? index.toNat)) : Run Slot) = _
  congr 1; funext v
  unfold Rule.select
  cases v.size? with
  | none => rfl
  | some size =>
    change (do return .ready (← orThrow (.indexOutOfRange index size)
        (v.element? index.toNat))) =
      (do return .ready (← lift (Rule.orFail (.indexOutOfRange index size)
        (v.element? index.toNat))) : Run Slot)
    cases v.element? index.toNat <;> rfl

end

end Run

/-- An evaluation is a run of the root from an empty machine. -/
theorem Program.evaluationUnder_eq (settings : Settings) (p : Program)
    (context : Context) (subject : Value) :
    p.evaluationUnder settings context subject =
      ⟨((Run.demand settings (settings.maxDepth + 1) 0
        (p.closure context subject)).on {}).1, ((Run.demand settings
          (settings.maxDepth + 1) 0 (p.closure context subject)).on {}).2⟩ := rfl

/-- A node that comes to a result without demanding anything is evaluated to it,
whatever the limit is. -/
theorem Program.evaluate_of_node {p : Program} {config : EngineConfig}
    {context : Context} {subject : Value} {result : Except EvaluationError Value}
    (rule : ∀ eval demand position scope,
      Run.node (Settings.ofConfig config context) eval demand
        ⟨p, position, scope, subject⟩ =
        do return .ready (← Run.lift result)) : p.evaluate config context
          subject = result := by
  unfold Program.evaluate Program.evaluation
  rw [Program.evaluationUnder_eq]
  unfold Run.demand Program.closure
  rw [Run.on_bind, Run.on_enter]
  dsimp only
  rw [rule]
  cases result <;> rfl

end FieldExpr
