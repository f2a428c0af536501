import FieldExpr.Value.Basic
import FieldExpr.Decimal.Text
import FieldExpr.Json.Reader

/-!
# Values and JSON documents

The plain form of a value, in which numbers are JSON numbers. A document's
integers that fit 64 signed bits become integers and all its other numbers
decimals; a number that no decimal can hold is refused. The other way a decimal
is written as the JSON number of its normalised text.
-/

namespace FieldExpr

/-- Why a document is not a value. -/
inductive ModelError where
  /-- A number, given by its text, that no decimal can hold. -/
  | numberOutOfRange (text : String)
  deriving DecidableEq

/-- The message of an error. -/
def ModelError.message : ModelError → String
  | .numberOutOfRange text =>
    "Number " ++ text ++ " cannot be represented as a decimal"

/-- The decimal that a JSON number stands for: an integer is exact, a double
goes by its text. -/
def Decimal.ofJsonNumber (n : Json.Number) : Except ModelError Decimal :=
  match n with
  | .integer n low high => .ok (.ofInt n (by simp only [Decimal.capacity]; omega))
  | .double x =>
    match Decimal.ofText? x.text with
    | some d => .ok d
    | none => .error (.numberOutOfRange (String.ofList x.text))

namespace Value

mutual

/-- The value of a document. -/
def ofJson : Json → Except ModelError Value
  | .null => .ok .unit
  | .boolean b => .ok (.boolean b)
  | .number n =>
    match n.toInt64? with
    | some n => .ok (.integer n)
    | none => (Decimal.ofJsonNumber n).map .decimal
  | .string s => .ok (.string s)
  | .array items => (ofJsonItems items).map .sequence
  | .object entries => (ofJsonEntries entries).map .record

/-- The values of the items, up to the first that has none. -/
def ofJsonItems : List Json → Except ModelError (List Value)
  | [] => .ok []
  | item :: rest => do
    let value ← ofJson item
    let values ← ofJsonItems rest
    return value :: values

/-- The values of the entries, up to the first that has none. -/
def ofJsonEntries : List (String × Json) → Except ModelError (List (String × Value))
  | [] => .ok []
  | (key, item) :: rest => do
    let value ← ofJson item
    let values ← ofJsonEntries rest
    return (key, value) :: values

end

/-- The document of a decimal: the number of its normalised text, or its text
where that is no number. -/
def decimalToJson (d : Decimal) : Json :=
  match Json.Number.ofText? d.normalize.text with
  | some n => .number n
  | none => .string (String.ofList d.text)

mutual

/-- The plain document of a value. -/
def toJson : Value → Json
  | .unit => .null
  | .boolean b => .boolean b
  | .integer n => .number (.ofInt64 n)
  | .decimal d => decimalToJson d
  | .string s => .string s
  | .sequence items => .array (toJsonItems items)
  | .record fields => .ofEntries (toJsonFields fields)

/-- The plain documents of items. -/
def toJsonItems : List Value → List Json
  | [] => []
  | v :: rest => v.toJson :: toJsonItems rest

/-- The plain documents of fields. -/
def toJsonFields : List (String × Value) → List (String × Json)
  | [] => []
  | (name, v) :: rest => (name, v.toJson) :: toJsonFields rest

end

end Value

end FieldExpr
