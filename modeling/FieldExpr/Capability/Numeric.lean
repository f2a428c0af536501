import FieldExpr.Value.Basic
import FieldExpr.Decimal.Arithmetic

/-!
# Numeric rules

A numeric tag says how a node reads its operands: as integers, or as decimals
with integers widened. Two integers are always computed with integer arithmetic,
which is exact or faults; everything else is decimal arithmetic.
-/

namespace FieldExpr

/-- The rule by which a node reads numbers. -/
inductive NumericTag where
  | integer | decimal
  deriving DecidableEq, Repr

/-- A number that a tag has read. -/
inductive Number where
  | integer (n : Int64)
  | decimal (d : Decimal)
  deriving DecidableEq

/-- What can go wrong in arithmetic. -/
inductive ArithmeticFault where
  | divisionByZero
  | overflow
  deriving DecidableEq, Repr

/-- The message of a fault. -/
def ArithmeticFault.message : ArithmeticFault → String
  | .divisionByZero => "division by zero"
  | .overflow => "numeric overflow"

namespace NumericTag

/-- The name of a tag. -/
def name : NumericTag → String
  | .integer => "integer"
  | .decimal => "decimal"

/-- The tag with this name. -/
def ofName? (name : String) : Option NumericTag :=
  [.integer, .decimal].find? (·.name == name)

/-- The tag's title in an outline. -/
def title : NumericTag → String
  | .integer => "Integer"
  | .decimal => "Decimal"

/-- The outline of a tag, which names its family. -/
def outline (tag : NumericTag) : String :=
  "Numeric(" ++ tag.title ++ ")"

/-- The number that a value is under the tag. -/
def read? : NumericTag → Value → Option Number
  | .integer, .integer n => some (.integer n)
  | .decimal, .integer n => some (.decimal (.ofInt64 n))
  | .decimal, .decimal d => some (.decimal d)
  | _, _ => none

end NumericTag

namespace Number

/-- The number as a value. -/
def toValue : Number → Value
  | .integer n => .integer n
  | .decimal d => .decimal d

/-- The number as a decimal. -/
def toDecimal : Number → Decimal
  | .integer n => .ofInt64 n
  | .decimal d => d

/-- A zero of either representation. -/
def isZero : Number → Bool
  | .integer n => n == 0
  | .decimal d => d.isZero

/-- The machine integer `n`, if it is one. -/
def ofInt? (n : Int) : Option Number :=
  if -0x8000000000000000 ≤ n ∧ n < 0x8000000000000000 then
    some (.integer (Int64.ofInt n)) else none

/-- A result that may have overflowed. -/
def orOverflow (result : Option Number) : Except ArithmeticFault Number :=
  match result with
  | some n => .ok n
  | none => .error .overflow

/-- The sum. -/
def add (left right : Number) : Except ArithmeticFault Number :=
  match left, right with
  | .integer l, .integer r => orOverflow (ofInt? (l.toInt + r.toInt))
  | l, r => orOverflow ((l.toDecimal.add r.toDecimal).map .decimal)

/-- The product. -/
def multiply (left right : Number) : Except ArithmeticFault Number :=
  match left, right with
  | .integer l, .integer r => orOverflow (ofInt? (l.toInt * r.toInt))
  | l, r => orOverflow ((l.toDecimal.mul r.toDecimal).map .decimal)

/-- The quotient: of integers truncated toward zero, of decimals rounded to
`scale` places if that is given. -/
def divide (left right : Number) (scale : Option Nat) :
    Except ArithmeticFault Number :=
  if right.isZero then .error .divisionByZero
  else match left, right with
    | .integer l, .integer r => orOverflow (ofInt? (l.toInt.tdiv r.toInt))
    | l, r =>
      let quotient := l.toDecimal.div r.toDecimal
      orOverflow (quotient.map fun q => .decimal (match scale with
        | some places => q.roundTo places
        | none => q))

/-- The remainder, with the sign of the dividend. An integer remainder faults
where its quotient does. -/
def modulo (left right : Number) : Except ArithmeticFault Number :=
  if right.isZero then .error .divisionByZero
  else match left, right with
    | .integer l, .integer r =>
      -- The least integer has no quotient by minus one, though the remainder
      -- would be zero.
      orOverflow ((ofInt? (l.toInt.tdiv r.toInt)).bind fun _ =>
        ofInt? (l.toInt.tmod r.toInt))
    | l, r => orOverflow ((l.toDecimal.mod r.toDecimal).map .decimal)

/-- The number with the other sign. -/
def negate : Number → Except ArithmeticFault Number
  | .integer n => orOverflow (ofInt? (-n.toInt))
  | .decimal d => .ok (.decimal d.neg)

/-- The order by value. -/
def compare (left right : Number) : Ordering :=
  match left, right with
  | .integer l, .integer r => Ord.compare l.toInt r.toInt
  | l, r => l.toDecimal.compare r.toDecimal

end Number

end FieldExpr
