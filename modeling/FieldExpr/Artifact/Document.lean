import FieldExpr.Json.Writer
import FieldExpr.Program.Basic
import FieldExpr.Decimal.Text

/-!
# Programs as documents

An artifact is a program inside a versioned envelope. Nodes are objects that
name their kind, values are objects that name their type, and decimals are
written as normalised text. The canonical text is the compact text with sorted
keys, so programs that are the same have the same one.
-/

namespace FieldExpr

/-- The version of the envelope. -/
abbrev formatVersion : UInt64 := 1

/-- The document of a machine word. -/
def Json.ofUInt64 (n : UInt64) : Json :=
  .number (.ofUInt64 n)

namespace Value

mutual

/-- The document of a value, tagged with its type. -/
def toTagged : Value → Json
  | .unit => tagged .unit .null
  | .boolean b => tagged .boolean (.boolean b)
  | .integer n => tagged .integer (.number (.ofInt64 n))
  | .decimal d => tagged .decimal (.string (String.ofList d.normalize.text))
  | .string s => tagged .string (.string s)
  | .sequence items => tagged .sequence (.array (toTaggedItems items))
  | .record fields => tagged .record (.ofEntries (toTaggedFields fields))
where
  /-- A payload under the name of its type. -/
  tagged (kind : ValueKind) (payload : Json) : Json :=
    .ofEntries [("type", .string kind.name), ("value", payload)]

/-- The documents of items. -/
def toTaggedItems : List Value → List Json
  | [] => []
  | v :: rest => v.toTagged :: toTaggedItems rest

/-- The documents of fields. -/
def toTaggedFields : List (String × Value) → List (String × Json)
  | [] => []
  | (name, v) :: rest => (name, v.toTagged) :: toTaggedFields rest

end

end Value

namespace Program

/-- The document of a node of some kind with these members. -/
def nodeDocument (kind : NodeKind) (members : List (String × Json)) : Json :=
  .ofEntries (("kind", .string kind.name) :: members)

/-- The document of a program, without an envelope. -/
def toDocument : Program → Json
  | .identity => nodeDocument .identity []
  | .lookup b => nodeDocument .lookup [("binding", .ofUInt64 b.id)]
  | .immediate inner => nodeDocument .immediate [("inner", inner.toDocument)]
  | .defer inner => nodeDocument .defer [("inner", inner.toDocument)]
  | .functionDef b body input =>
    nodeDocument .functionDef
      [("binding", .ofUInt64 b.id), ("body", body.toDocument),
        ("input", input.toDocument)]
  | .literal value shape =>
    nodeDocument .literal
      [("value", value.toTagged), ("constructor", .string shape.name)]
  | .pipe left right =>
    nodeDocument .pipe [("left", left.toDocument), ("right", right.toDocument)]
  | .equalTo tag left right =>
    nodeDocument .equalTo
      [("left", left.toDocument), ("right", right.toDocument),
        ("tag", .string tag.name)]
  | .binaryMath op tag left right =>
    nodeDocument .math
      [("tag", .string tag.name), ("op", .string op.name),
        ("left", left.toDocument), ("right", right.toDocument)]
  | .unaryMath op tag operand =>
    nodeDocument .math
      [("tag", .string tag.name), ("op", .string op.name),
        ("operand", operand.toDocument)]
  | .binaryLogical op left right =>
    nodeDocument .logical
      [("op", .string op.name), ("left", left.toDocument),
        ("right", right.toDocument)]
  | .not operand =>
    nodeDocument .logical [("operand", operand.toDocument), ("op", .string "not")]
  | .diverge condition onTrue onFalse =>
    nodeDocument .logical
      [("operand", condition.toDocument), ("op", .string "diverge"),
        ("is_true", onTrue.toDocument), ("is_false", onFalse.toDocument)]
  | .tupleGetIndex tuple index =>
    nodeDocument .tupleGetIndex
      [("tuple", tuple.toDocument), ("index", .ofUInt64 index)]

/-- The document of a program inside its envelope. -/
def toArtifact (p : Program) : Json :=
  .ofEntries [("version", .ofUInt64 formatVersion), ("program", p.toDocument)]

/-- The canonical text of a program, as characters. -/
def canonicalChars (p : Program) : List Char :=
  p.toArtifact.sortKeys.write []

/-- The canonical text of a program. -/
def canonicalText (p : Program) : String :=
  String.ofList p.canonicalChars

/-- The bytes of the canonical text. -/
def canonicalBytes (p : Program) : List UInt8 :=
  p.canonicalChars.flatMap String.utf8EncodeChar

end Program

end FieldExpr
