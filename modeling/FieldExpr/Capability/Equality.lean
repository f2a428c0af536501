import FieldExpr.Capability.Numeric

/-!
# Equality rules

An equality tag says which values it can compare. Outside of them it has no
answer; the structural tag compares all values.
-/

namespace FieldExpr

/-- The rule by which a node compares values. -/
inductive EqualityTag where
  | unit | boolean | integer | decimal | string | structural
  deriving DecidableEq, Repr

namespace EqualityTag

/-- The name of a tag. -/
def name : EqualityTag → String
  | .unit => "unit"
  | .boolean => "boolean"
  | .integer => "integer"
  | .decimal => "decimal"
  | .string => "string"
  | .structural => "structural"

/-- The tag with this name. -/
def ofName? (name : String) : Option EqualityTag :=
  [.unit, .boolean, .integer, .decimal, .string, .structural].find? (·.name == name)

/-- The tag's title in an outline. -/
def title : EqualityTag → String
  | .unit => "Unit"
  | .boolean => "Boolean"
  | .integer => "Integer"
  | .decimal => "Decimal"
  | .string => "String"
  | .structural => "Structural"

/-- The outline of a tag, which names its family. -/
def outline (tag : EqualityTag) : String :=
  "Equatable(" ++ tag.title ++ ")"

/-- Whether two values are equal under the tag, if it can compare them. -/
def equals? : EqualityTag → Value → Value → Option Bool
  | .structural, a, b => some (a.same b)
  | .unit, .unit, .unit => some true
  | .boolean, .boolean a, .boolean b => some (a == b)
  | .integer, .integer a, .integer b => some (a == b)
  | .string, .string a, .string b => some (a == b)
  | .decimal, a, b => do
    let a ← NumericTag.decimal.read? a
    let b ← NumericTag.decimal.read? b
    return a.compare b == .eq
  | _, _, _ => none

end EqualityTag

end FieldExpr
