import FieldExpr.Cache
import FieldExpr.Evaluation.Evaluator
import FieldExpr.Value.Json
import FieldExpr.Value.Path

/-!
# Field resolvers

A resolver computes one field of a parent object. It hands the program a record
of the parent under `value` and the field's arguments under `args`, and turns
the result back into a document. A resolver that selects paths replaces the
parent by the sequence of the values at these paths.
-/

namespace FieldExpr

/-- A field's program and how to run it. -/
structure Resolver where
  program : Program
  config : EngineConfig := {}
  /-- The name that log messages give the field. -/
  field : Option String := none
  /-- The paths, in segments, that the parent is narrowed to. -/
  selection : Option (List (List String)) := none

/-- Why a field has no value. -/
inductive ResolveError where
  /-- The parent or an argument is not a value. -/
  | input (error : ModelError)
  | evaluation (error : EvaluationError)
  deriving DecidableEq

/-- The message of an error. -/
def ResolveError.message : ResolveError → String
  | .input error => "Invalid resolver input: " ++ error.message
  | .evaluation error => error.message

namespace Resolver

/-- The resolver that narrows the parent to written paths. -/
def selecting (r : Resolver) (paths : List String) : Resolver :=
  { r with selection := some (paths.map pathSegments) }

/-- The value that stands for the parent. -/
def narrowed (r : Resolver) (parent : Value) : Value :=
  match r.selection with
  | none => parent
  | some paths => .sequence (paths.map fun path => (parent.path? path).getD .unit)

/-- The subject of a parent and its arguments, which have one entry for each
name. -/
def subject (r : Resolver) (parent : Json) (args : List (String × Json)) :
    Except ModelError Value := do
  let args ← Value.ofJsonEntries args
  let parent ← Value.ofJson parent
  return .record [("value", r.narrowed parent), ("args", .record args)]

/-- The context of every resolution: no bindings, and the scale of the
configuration. -/
def context (r : Resolver) : Context :=
  { decimalScale := r.config.decimalScale }

/-- The evaluation of the program against a subject. -/
def evaluation (r : Resolver) (subject : Value) : Evaluation :=
  r.program.evaluation r.config r.context subject

/-- The document of the field, or why there is none. -/
def resolve (r : Resolver) (parent : Json) (args : List (String × Json)) :
    Except ResolveError Json :=
  match r.subject parent args with
  | .error error => .error (.input error)
  | .ok subject =>
    match (r.evaluation subject).result with
    | .ok value => .ok value.toJson
    | .error error => .error (.evaluation error)

/-- What the log says about a resolution. -/
def log (r : Resolver) (parent : Json) (args : List (String × Json)) :
    List LogEntry :=
  match r.subject parent args with
  | .error _ => []
  | .ok subject =>
    let evaluation := r.evaluation subject
    let field := r.field.getD "<anonymous>"
    evaluation.log r.program ++ [match evaluation.result with
      | .ok _ => ⟨.trace, "Resolved field " ++ field⟩
      | .error error =>
        -- Only an ill-scoped program is the fault of whoever made the resolver.
        if error.isInternal then
          ⟨.error, "Field " ++ field ++ " has a malformed program: " ++
            error.message⟩
        else ⟨.debug, "Field " ++ field ++ " failed: " ++ error.message⟩]

/-- A resolver whose program is the one that a cache holds under its digest,
and the cache. -/
def shared (c : Cache) (p : Program) (config : EngineConfig) : Resolver × Cache :=
  let (_, stored, c) := c.insert p
  ({ program := stored, config }, c)

/-- What the log says when a resolver takes its program from a cache. -/
def sharedLog (p : Program) : List LogEntry :=
  Cache.insertLog p ++ [⟨.debug, "Resolver uses shared program " ++ p.digest.hex⟩]

end Resolver

end FieldExpr
