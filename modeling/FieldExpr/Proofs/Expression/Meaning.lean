import FieldExpr.Expression.Compile
import FieldExpr.Proofs.Evaluation.Meaning

/-!
# What expressions mean

An interpretation of expressions as they are written, with names and without
compiling: a name means the argument of the innermost function around it that binds
the name, and there is neither a binding nor a depth. Applying a function evaluates
the argument where the application stands; an argument that is deferred is kept as a
suspended computation, whose names and subject are those of that place.
-/

namespace FieldExpr

/-- What the names in scope stand for, the innermost first. -/
abbrev Environment := List (String × Meaning)

/-- What an operand comes to: a literal is rebuilt in its shape, and anything
else has its own value. -/
def Expression.operandOr (value : Except EvaluationError Value) :
    Expression → Except EvaluationError Value
  | .literal v shape => Rule.literal shape v
  | _ => value

mutual

/-- The meaning of an expression. -/
def Expression.meaning (settings : Settings) :
    Expression → Environment → Value → Except EvaluationError Meaning
  | .identity, _, subject => .ok (.ready subject)
  | .var name, env, _ => Rule.orFail (.unboundBinding .last) (env.lookup name)
  | .literal v _, _, _ => .ok (.ready v)
  | .immediate inner, env, subject => do
    return .ready (← inner.meaning settings env subject >>= Meaning.demand)
  | .defer inner, env, subject =>
    .ok (.suspended (inner.meaning settings env subject >>= Meaning.demand))
  | .apply function argument, env, subject => do
    function.meaning settings env subject (← argument.meaning settings env subject)
  | .pipe left right, env, subject => do
    let v ← left.meaning settings env subject >>= Meaning.demand
    right.meaning settings env v
  | .equalTo tag left right, env, subject => do
    let l ← left.operandOr (left.meaning settings env subject >>= Meaning.demand)
    let r ← right.operandOr (right.meaning settings env subject >>= Meaning.demand)
    return .ready (.boolean (← Rule.equalTo tag l r))
  | .binaryMath op tag left right, env, subject => do
    let l ← left.operandOr (left.meaning settings env subject >>= Meaning.demand)
    let r ← right.operandOr (right.meaning settings env subject >>= Meaning.demand)
    return .ready (← Rule.binaryMath settings op tag l r)
  | .unaryMath op tag operand, env, subject => do
    let v ← operand.operandOr (operand.meaning settings env subject >>=
      Meaning.demand)
    return .ready (← Rule.unaryMath op tag v)
  | .binaryLogical op left right, env, subject => do
    let l ← left.meaning settings env subject >>= Meaning.demand >>=
      Rule.condition (Rule.connective op)
    if Rule.decides op l then return .ready (.boolean l)
    else
      let r ← right.meaning settings env subject >>= Meaning.demand >>=
        Rule.condition (Rule.connective op)
      return .ready (.boolean r)
  | .not operand, env, subject => do
    let b ← operand.meaning settings env subject >>= Meaning.demand >>=
      Rule.condition .not
    return .ready (.boolean !b)
  | .diverge condition onTrue onFalse, env, subject => do
    let choice ← condition.meaning settings env subject >>= Meaning.demand >>=
      Rule.condition .diverge
    if choice then return .ready (← onTrue.meaning settings env subject >>=
      Meaning.demand)
    else return .ready (← onFalse.meaning settings env subject >>= Meaning.demand)
  | .tupleGetIndex tuple index, env, subject => do
    let v ← tuple.meaning settings env subject >>= Meaning.demand
    return .ready (← Rule.select index v)

/-- The meaning of a function at an argument. -/
def Function.meaning (settings : Settings) :
    Function → Environment → Value → Meaning → Except EvaluationError Meaning
  | .named parameter body, env, subject, argument =>
    body.meaning settings ((parameter, argument) :: env) subject
  | .andThen first second, env, subject, argument => do
    second.meaning settings env subject
      (← first.meaning settings env subject argument)

end

namespace Expression

/-- What an expression's meaning comes to when it is demanded. -/
def outcome (settings : Settings) (e : Expression) (env : Environment)
    (subject : Value) : Except EvaluationError Value :=
  e.meaning settings env subject >>= Meaning.demand

/-- The interpretation of an expression without free names. Of the settings it
reads how division rounds and how projection selects, and no limit. -/
def interpret (settings : Settings) (e : Expression) (subject : Value) :
    Except EvaluationError Value :=
  e.outcome settings [] subject

end Expression

end FieldExpr
