import FieldExpr.Proofs.Evaluation.Rule

/-!
# What programs mean

The meaning of a program by recursion on its structure: no depth is counted, no
cell is made, and a deferred program stands for its outcome, which is settled by
the scope and the subject at the place where it was deferred. An outcome that is
an error does no harm until it is demanded.
-/

namespace FieldExpr

/-- What a slot stands for: a value, or the outcome that a suspended
computation will have. -/
inductive Meaning where
  | ready (value : Value)
  | suspended (outcome : Except EvaluationError Value)

/-- The outcome of demanding what a slot stands for. -/
def Meaning.demand : Meaning → Except EvaluationError Value
  | .ready value => .ok value
  | .suspended outcome => outcome

/-- The meanings of a context's bindings. -/
def Context.meanings (context : Context) : List (Binding × Meaning) :=
  context.bindings.map fun (b, v) => (b, .ready v)

namespace Program

/-- What an operand comes to: a literal is rebuilt in its shape, and anything
else has its own value. -/
def operandOr (value : Except EvaluationError Value) :
    Program → Except EvaluationError Value
  | .literal v shape => Rule.literal shape v
  | _ => value

/-- The meaning of a program, where `env` has the meanings of bindings, the
newest first. -/
def meaning (settings : Settings) :
    Program → List (Binding × Meaning) → Value → Except EvaluationError Meaning
  | .identity, _, subject => .ok (.ready subject)
  | .lookup b, env, _ => Rule.orFail (.unboundBinding b) (env.lookup b)
  | .literal v _, _, _ => .ok (.ready v)
  | .immediate inner, env, subject => do
    return .ready (← inner.meaning settings env subject >>= Meaning.demand)
  | .defer inner, env, subject =>
    .ok (.suspended (inner.meaning settings env subject >>= Meaning.demand))
  | .functionDef b body input, env, subject => do
    let slot ← input.meaning settings env subject
    body.meaning settings ((b, slot) :: env) subject
  | .pipe left right, env, subject => do
    let v ← left.meaning settings env subject >>= Meaning.demand
    right.meaning settings env v
  | .equalTo tag left right, env, subject => do
    let l ← left.operandOr (left.meaning settings env subject >>= Meaning.demand)
    let r ← right.operandOr (right.meaning settings env subject >>= Meaning.demand)
    return .ready (.boolean (← Rule.equalTo tag l r))
  | .binaryMath op tag left right, env, subject => do
    let l ← left.operandOr (left.meaning settings env subject >>= Meaning.demand)
    let r ← right.operandOr (right.meaning settings env subject >>= Meaning.demand)
    return .ready (← Rule.binaryMath settings op tag l r)
  | .unaryMath op tag operand, env, subject => do
    let v ← operand.operandOr (operand.meaning settings env subject >>=
      Meaning.demand)
    return .ready (← Rule.unaryMath op tag v)
  | .binaryLogical op left right, env, subject => do
    let l ← left.meaning settings env subject >>= Meaning.demand >>=
      Rule.condition (Rule.connective op)
    if Rule.decides op l then return .ready (.boolean l)
    else
      let r ← right.meaning settings env subject >>= Meaning.demand >>=
        Rule.condition (Rule.connective op)
      return .ready (.boolean r)
  | .not operand, env, subject => do
    let b ← operand.meaning settings env subject >>= Meaning.demand >>=
      Rule.condition .not
    return .ready (.boolean !b)
  | .diverge condition onTrue onFalse, env, subject => do
    let choice ← condition.meaning settings env subject >>= Meaning.demand >>=
      Rule.condition .diverge
    if choice then return .ready (← onTrue.meaning settings env subject >>=
      Meaning.demand)
    else return .ready (← onFalse.meaning settings env subject >>= Meaning.demand)
  | .tupleGetIndex tuple index, env, subject => do
    let v ← tuple.meaning settings env subject >>= Meaning.demand
    return .ready (← Rule.select index v)

/-- What a program's meaning comes to when it is demanded. -/
def outcome (settings : Settings) (p : Program) (env : List (Binding × Meaning))
    (subject : Value) : Except EvaluationError Value :=
  p.meaning settings env subject >>= Meaning.demand

end Program

end FieldExpr
