import FieldExpr.Artifact.Document
import FieldExpr.Config.Basic
import FieldExpr.Json.Nesting
import FieldExpr.Json.Reader
import FieldExpr.Program.Scope

/-!
# Reading artifacts

The inverse of writing a program as a document. Members that a node does not
have are ignored; the first missing or wrong one is reported, in the order in
which a kind lists its members. Reading under a configuration bounds the nesting
of the text, the depth of the program, and asks for well-scoped bindings.
-/

namespace FieldExpr

/-- Why a document is not an artifact. -/
inductive ArtifactError where
  | unsupportedVersion (found : UInt64)
  | missingVersion
  | unknownKind (name : String)
  /-- A name that the member of that name does not know. -/
  | unknownTag (field name : String)
  | missingField (kind field : String)
  /-- A member that is not what it must be. -/
  | invalidField (field expected : String)
  | tooDeep (depth limit : Nat)
  | json (error : Json.ReadError)
  | malformed (defect : ScopeError)
  deriving DecidableEq

namespace ArtifactError

/-- What a text error says. -/
def jsonMessage : Json.ReadError → String
  | .endOfInput => "unexpected end of input"
  | .malformed => "malformed document"

/-- The message of an error. -/
def message : ArtifactError → String
  | .unsupportedVersion found =>
    "Unsupported encoding version " ++
      String.ofList (Text.natural found.toNat) ++ ", expected " ++
      String.ofList (Text.natural formatVersion.toNat)
  | .missingVersion => "Encoded program has no version"
  | .unknownKind name => "Unknown node kind '" ++ name ++ "'"
  | .unknownTag field name => "Unknown " ++ field ++ " '" ++ name ++ "'"
  | .missingField kind field =>
    "Node '" ++ kind ++ "' is missing field '" ++ field ++ "'"
  | .invalidField field expected => "Field '" ++ field ++ "' must be " ++ expected
  | .tooDeep depth limit =>
    "Nesting depth " ++ String.ofList (Text.natural depth) ++
      " exceeds the limit of " ++ String.ofList (Text.natural limit)
  | .json error => "Invalid JSON: " ++ jsonMessage error
  | .malformed defect => "Malformed program: " ++ defect.message

end ArtifactError

/-- A result, or an error where there is none. -/
def orError {ε α : Type} (error : ε) : Option α → Except ε α
  | some a => .ok a
  | none => .error error

namespace Value

/-- What the payload of each kind of value must be. -/
def payloadDescription : ValueKind → String
  | .unit => "null"
  | .boolean => "a boolean"
  | .integer => "a 64-bit integer"
  | .decimal => "a decimal string"
  | .string => "a string"
  | .sequence => "an array"
  | .record => "an object"

/-- A payload that is not of its kind. -/
def invalidPayload (kind : ValueKind) : ArtifactError :=
  .invalidField "value" (payloadDescription kind)

/-- The kind that a tagged document names. -/
def taggedKind (entries : List (String × Json)) :
    Except ArtifactError ValueKind := do
  let name ← orError (.invalidField "type" "a string")
    ((entries.lookup "type").bind Json.asString?)
  orError (.unknownTag "type" name) (ValueKind.ofName? name)

/-- The value of a payload that has no parts. -/
def ofScalarPayload (kind : ValueKind) (payload : Json) :
    Except ArtifactError Value :=
  orError (invalidPayload kind) (match kind with
    | .unit => some .unit
    | .boolean => payload.asBoolean?.map .boolean
    | .integer => payload.asInt64?.map .integer
    | .decimal =>
      (payload.asString?.bind fun text => Decimal.ofText? text.toList).map .decimal
    | .string => payload.asString?.map .string
    | .sequence => none
    | .record => none)

mutual

/-- The value of a tagged document. -/
def ofTagged : Json → Except ArtifactError Value
  | .object entries => do ofMember (← taggedKind entries) entries
  | _ => .error (.invalidField "type" "a string")

/-- The value whose payload stands under `value` among these entries; without
one the payload is null. -/
def ofMember (kind : ValueKind) : List (String × Json) → Except ArtifactError Value
  | [] => ofScalarPayload kind .null
  | (key, payload) :: rest =>
    if key = "value" then ofPayload kind payload else ofMember kind rest

/-- The value of a payload. -/
def ofPayload (kind : ValueKind) : Json → Except ArtifactError Value
  | .array items =>
    if kind = .sequence then (ofTaggedItems items).map .sequence
      else ofScalarPayload kind (.array [])
  | .object entries =>
    if kind = .record then (ofTaggedFields entries).map .record
      else ofScalarPayload kind (.object [])
  | payload => ofScalarPayload kind payload

/-- The values of tagged items. -/
def ofTaggedItems : List Json → Except ArtifactError (List Value)
  | [] => .ok []
  | item :: rest => do
    let value ← ofTagged item
    let values ← ofTaggedItems rest
    return value :: values

/-- The values of tagged fields. -/
def ofTaggedFields :
    List (String × Json) → Except ArtifactError (List (String × Value))
  | [] => .ok []
  | (name, item) :: rest => do
    let value ← ofTagged item
    let values ← ofTaggedFields rest
    return (name, value) :: values

end

end Value

namespace Program

/-- The members of a node, with the kind that errors name. -/
structure Members where
  kind : String
  entries : List (String × Json)

namespace Members

/-- The member under a name. -/
def get (m : Members) (field : String) : Except ArtifactError Json :=
  orError (.missingField m.kind field) (m.entries.lookup field)

/-- The string under a name. -/
def string (m : Members) (field : String) : Except ArtifactError String := do
  orError (.invalidField field "a string") (← m.get field).asString?

/-- The unsigned number under a name. -/
def word (m : Members) (field : String) : Except ArtifactError UInt64 := do
  orError (.invalidField field "a non-negative integer") (← m.get field).asUInt64?

/-- The binding of a node. -/
def binding (m : Members) : Except ArtifactError Binding := do
  return ⟨← m.word "binding"⟩

/-- The thing that a name under a name stands for. -/
def tag {α : Type} (m : Members) (field : String)
    (ofName? : String → Option α) : Except ArtifactError α := do
  let name ← m.string field
  orError (.unknownTag field name) (ofName? name)

end Members

mutual

/-- The program of a document. -/
def ofDocument : Json → Except ArtifactError Program
  | .object entries => do
    let name ← orError (.invalidField "kind" "a string")
      ((entries.lookup "kind").bind Json.asString?)
    let m : Members := ⟨name, entries⟩
    match ← orError (.unknownKind name) (NodeKind.ofName? name) with
    | .identity => return .identity
    | .lookup => return .lookup (← m.binding)
    | .immediate => return .immediate (← child name "inner" entries)
    | .defer => return .defer (← child name "inner" entries)
    | .functionDef =>
      let binding ← m.binding
      let body ← child name "body" entries
      let input ← child name "input" entries
      return .functionDef binding body input
    | .literal =>
      let value ← Value.ofTagged (← m.get "value")
      let shape ← m.tag "constructor" Shape.ofName?
      return .literal value shape
    | .pipe =>
      let left ← child name "left" entries
      let right ← child name "right" entries
      return .pipe left right
    | .equalTo =>
      let left ← child name "left" entries
      let right ← child name "right" entries
      let tag ← m.tag "tag" EqualityTag.ofName?
      return .equalTo tag left right
    | .math =>
      let tag ← m.tag "tag" NumericTag.ofName?
      -- The operation tells which other members there are.
      let op ← m.string "op"
      match BinaryMathOp.ofName? op with
      | some op =>
        let left ← child name "left" entries
        let right ← child name "right" entries
        return .binaryMath op tag left right
      | none =>
        let op ← orError (.unknownTag "op" op) (UnaryMathOp.ofName? op)
        let operand ← child name "operand" entries
        return .unaryMath op tag operand
    | .logical =>
      let op ← m.string "op"
      if op = "not" then return .not (← child name "operand" entries)
      else if op = "diverge" then
        let condition ← child name "operand" entries
        let onTrue ← child name "is_true" entries
        let onFalse ← child name "is_false" entries
        return .diverge condition onTrue onFalse
      else
        let op ← orError (.unknownTag "op" op) (BinaryLogicalOp.ofName? op)
        let left ← child name "left" entries
        let right ← child name "right" entries
        return .binaryLogical op left right
    | .tupleGetIndex =>
      let tuple ← child name "tuple" entries
      let index ← m.word "index"
      return .tupleGetIndex tuple index
  | _ => .error (.invalidField "node" "an object")

/-- The program of the first member under a name. -/
def child (kind field : String) :
    List (String × Json) → Except ArtifactError Program
  | [] => .error (.missingField kind field)
  | (key, document) :: rest =>
    if key = field then ofDocument document else child kind field rest

end

/-- The program inside an envelope, whatever its depth and bindings. -/
def ofArtifactUnchecked (document : Json) : Except ArtifactError Program := do
  let version ← orError .missingVersion
    ((document.get? "version").bind Json.asUInt64?)
  if version ≠ formatVersion then .error (.unsupportedVersion version)
  -- Another version may have another layout, so nothing else is looked
  -- at before it.
  else ofDocument (← orError (.missingField "envelope" "program")
    (document.get? "program"))

/-- The greatest machine word; limits do not grow past it. -/
abbrev wordLimit : Nat := 0xffffffffffffffff

/-- The deepest program accepted under a configuration: the root is evaluated at
depth zero, so one level more than the evaluation depth still fits. -/
def depthLimit (config : EngineConfig) : Nat :=
  min (config.maxDepth.toNat + 1) wordLimit

/-- The deepest nesting of a text accepted under a configuration: one level for the
envelope, one for each level of the program and two for each level of a literal. -/
def nestingLimit (config : EngineConfig) : Nat :=
  min (min (depthLimit config * 3) wordLimit + 1) wordLimit

/-- A program that has been read, if the configuration accepts it. -/
def accept (config : EngineConfig) (p : Program) : Except ArtifactError Program :=
  if depthLimit config < p.depth then .error (.tooDeep p.depth (depthLimit config))
  else if config.validateOnDecode then
    match p.validate with
    | .ok () => .ok p
    | .error defect => .error (.malformed defect)
  else .ok p

/-- The program inside an envelope, under a configuration. -/
def ofArtifact (config : EngineConfig) (document : Json) :
    Except ArtifactError Program := do
  accept config (← ofArtifactUnchecked document)

/-- The program of an artifact's text, under a configuration. The nesting is
bounded before the text is parsed. -/
def ofBytes (config : EngineConfig) (bytes : List UInt8) :
    Except ArtifactError Program :=
  match Json.nestingExcess (nestingLimit config) bytes with
  | some depth => .error (.tooDeep depth (nestingLimit config))
  | none =>
    match Json.parse {} bytes with
    | .ok document => ofArtifact config document
    | .error error => .error (.json error)

end Program

end FieldExpr
