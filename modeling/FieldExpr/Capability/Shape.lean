import FieldExpr.Value.Basic

/-!
# Shapes of literals

A literal carries the shape that it has when a node takes it as an operand.
Rebuilding a value in its shape gives it back, widens an integer to a
decimal, or fails.
-/

namespace FieldExpr

/-- The shape of a literal. -/
inductive Shape where
  | unit | boolean | integer | decimal | string | sequence | pair | record | any
  deriving DecidableEq, Repr

namespace Shape

/-- The name of a shape. -/
def name : Shape → String
  | .unit => "unit"
  | .boolean => "boolean"
  | .integer => "integer"
  | .decimal => "decimal"
  | .string => "string"
  | .sequence => "sequence"
  | .pair => "pair"
  | .record => "record"
  | .any => "any"

/-- The shape with this name. -/
def ofName? (name : String) : Option Shape :=
  [.unit, .boolean, .integer, .decimal, .string, .sequence, .pair, .record,
    .any].find? (·.name == name)

/-- The shape's title in an outline. -/
def title : Shape → String
  | .unit => "Unit"
  | .boolean => "Boolean"
  | .integer => "Integer"
  | .decimal => "Decimal"
  | .string => "String"
  | .sequence => "Sequence"
  | .pair => "Pair"
  | .record => "Record"
  | .any => "Any"

/-- The outline of a shape, which names its family. -/
def outline (s : Shape) : String :=
  "Constructor(" ++ s.title ++ ")"

/-- The value rebuilt in the shape, if it has that shape. -/
def rebuild? : Shape → Value → Option Value
  | .any, v => some v
  | .unit, .unit => some .unit
  | .boolean, .boolean b => some (.boolean b)
  | .integer, .integer n => some (.integer n)
  | .decimal, .decimal d => some (.decimal d)
  | .decimal, .integer n => some (.decimal (.ofInt64 n))
  | .string, .string s => some (.string s)
  | .sequence, .sequence items => some (.sequence items)
  | .pair, .sequence [first, second] => some (.sequence [first, second])
  | .record, .record fields => some (.record fields)
  | _, _ => none

end Shape

end FieldExpr
