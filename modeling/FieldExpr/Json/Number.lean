import FieldExpr.Binary64.Text
import FieldExpr.Text.Digits

/-!
# JSON numbers

A number written without fraction and exponent that fits 64 bits, signed or
unsigned, is an integer and exact; every other number is a double. The double is
computed from the first nineteen or twenty digits and a power of ten, one
operation at a time, so it is not always the nearest one.
-/

namespace FieldExpr.Json

/-- A number in a document. -/
inductive Number where
  /-- A whole number that fits 64 bits, signed or unsigned. -/
  | integer (n : Int) (low : -0x8000000000000000 ≤ n)
    (high : n < 0x10000000000000000)
  /-- Any other number. -/
  | double (x : Binary64)
  deriving DecidableEq

namespace Number

/-- A machine integer as a number. -/
def ofInt64 (n : Int64) : Number :=
  .integer n.toInt (Int64.le_toInt n) (by have := Int64.toInt_lt n; omega)

/-- A machine word as a number. -/
def ofUInt64 (n : UInt64) : Number :=
  .integer n.toNat (by omega) (by have := UInt64.toNat_lt n; omega)

/-- The number as a signed 64-bit integer, if it is one. -/
def toInt64? : Number → Option Int64
  | .integer n _ _ => if n < 0x8000000000000000 then some (Int64.ofInt n) else none
  | .double _ => none

/-- The number as an unsigned 64-bit integer, if it is one. -/
def toUInt64? : Number → Option UInt64
  | .integer n _ _ => if 0 ≤ n then some (UInt64.ofNat n.toNat) else none
  | .double _ => none

/-- The written form. -/
def text : Number → List Char
  | .integer n _ _ => Text.integer n
  | .double x => x.text

end Number

/-! ## Numerals -/

/-- The parts of a written number: digits in reading order, an empty list where
a part is missing. -/
structure Numeral where
  negative : Bool := false
  whole : List Nat := []
  fraction : List Nat := []
  exponentNegative : Bool := false
  exponent : List Nat := []

/-- Digits taken into a 64-bit significand, and the power of ten it has to be
multiplied by. -/
structure Significand where
  value : Nat
  exponent : Int
  /-- A digit did not fit, so no further one is taken. -/
  full : Bool

/-- One more digit of the whole part: taken while it fits, and only counted
from then on. -/
def Significand.takeWhole (s : Significand) (digit : Nat) : Significand :=
  if s.full ∨ 0x10000000000000000 ≤ 10 * s.value + digit then
    { s with exponent := s.exponent + 1, full := true }
  else { s with value := 10 * s.value + digit }

/-- One more digit of the fraction: taken while it fits, and ignored
from then on. -/
def Significand.takeFraction (s : Significand) (digit : Nat) : Significand :=
  if s.full ∨ 0x10000000000000000 ≤ 10 * s.value + digit then
    { s with full := true }
  else { s with value := 10 * s.value + digit, exponent := s.exponent - 1 }

/-- The value of a list of digits. -/
def digitsValue (digits : List Nat) : Nat :=
  digits.foldl (fun value digit => 10 * value + digit) 0

/-- The nearest integer that fits 32 bits. -/
def clamp32 (n : Int) : Int :=
  max (-0x80000000) (min n 0x7fffffff)

/-- A power of ten as a double, for an exponent of at most 308. -/
def powerOfTen? (exponent : Nat) : Option Binary64 :=
  Binary64.ofNat? (tenPow exponent)

/-- Divide by `10 ^ 308` a number of times, stopping at zero. -/
def divideRounds (x : Binary64) : (rounds : Nat) → Option Binary64
  | 0 => some x
  | rounds + 1 =>
    if x.isZero then some x
    else do divideRounds (← x.div? (← powerOfTen? 308)) rounds

/-- A double times `10 ^ exponent`, at most 308 places at a time; `none` when
the result is not finite. -/
def scaleByTen (x : Binary64) (exponent : Int) : Option Binary64 :=
  if 0 ≤ exponent then
    if exponent ≤ 308 then do x.mul? (← powerOfTen? exponent.toNat)
    else if x.isZero then some x
    else none
  else do
    let places := (-exponent).toNat
    let rounds := (places - 1) / 308
    let x ← divideRounds x rounds
    if x.isZero then some x else x.div? (← powerOfTen? (places - 308 * rounds))

/-- The double of a sign, a significand and a power of ten. -/
def doubleOf? (negative : Bool) (value : Nat) (exponent : Int) : Option Number := do
  let x ← scaleByTen (← Binary64.ofNat? value) exponent
  return .double { x with negative }

/-- The number of a numeral without fraction and exponent whose digits all fit:
an integer, unless it is minus zero or below the signed range. -/
def wholeNumber? (negative : Bool) (value : Nat) : Option Number :=
  if h : negative = false ∧ value < 0x10000000000000000 then
    some (.integer value (by omega) (by omega))
  else if h : value ≠ 0 ∧ value ≤ 0x8000000000000000 then
    some (.integer (-value) (by omega) (by omega))
  else doubleOf? negative value 0

/-- The number that a numeral stands for; `none` when it is too large
for a double. -/
def Numeral.number? (n : Numeral) : Option Number :=
  let whole := n.whole.foldl Significand.takeWhole ⟨0, 0, false⟩
  if n.fraction.isEmpty && n.exponent.isEmpty && !whole.full then
    wholeNumber? n.negative whole.value
  else
    -- The fraction starts to be taken anew, even if the whole part had more
    -- digits than fit.
    let all := n.fraction.foldl Significand.takeFraction
      { whole with full := false }
    let written := digitsValue n.exponent
    if 0x80000000 ≤ written then
      -- An exponent of more than 32 bits makes the number too large or zero.
      if all.value ≠ 0 ∧ !n.exponentNegative then none
        else some (.double (.zero n.negative))
    else
      let exponent :=
        clamp32 (if n.exponentNegative then all.exponent - written
          else all.exponent + written)
      doubleOf? n.negative all.value exponent

end FieldExpr.Json
