import FieldExpr.Binary64.Basic

/-!
# The shortest digits of a double

The fewest significant digits that read back as the same double, and of those
the nearest to its exact value. The numbers that read back fill the interval
that reaches half way to the neighbouring doubles on both sides, ends included
exactly when the significand is even. On each decimal grid, from one digit to
seventeen, only the two neighbours of the value need to be tried.
-/

namespace FieldExpr.Binary64

/-- Significant digits as one whole number without a zero at its end, and the
decimal exponent of the first. -/
structure Digits where
  digits : Nat
  exponent : Int
  deriving DecidableEq

/-- An interval around a value, counted in quarters of the last bit so that its
ends are whole numbers. -/
structure Interval where
  low : Nat
  value : Nat
  high : Nat
  /-- The quarter of the last bit, as a fraction. -/
  unit : Nat × Nat
  closed : Bool

/-- The numbers that read back as `x`. Below a power of two the neighbour is
only half as far away. -/
def interval (x : Binary64) : Interval :=
  let below := if x.significand = 0x10000000000000 ∧ minExponent < x.exponent
    then 1 else 2
  { low := 4 * x.significand - below
    value := 4 * x.significand
    high := 4 * x.significand + 2
    unit := fraction 1 (x.exponent - 2)
    closed := x.significand % 2 == 0 }

/-- The fraction `n · 10 ^ exponent`. -/
def decimalFraction (n : Nat) (exponent : Int) : Nat × Nat :=
  if 0 ≤ exponent then (n * tenPow exponent.toNat, 1)
    else (n, tenPow (-exponent).toNat)

/-- The order of two fractions. -/
def compareFractions (a b : Nat × Nat) : Ordering :=
  compare (a.1 * b.2) (b.1 * a.2)

/-- `n` units of the interval as a fraction. -/
def Interval.at (i : Interval) (n : Nat) : Nat × Nat :=
  (n * i.unit.1, i.unit.2)

/-- Whether a fraction reads back. -/
def Interval.contains (i : Interval) (f : Nat × Nat) : Bool :=
  match compareFractions (i.at i.low) f, compareFractions f (i.at i.high) with
  | .lt, .lt => true
  | .eq, .lt => i.closed
  | .lt, .eq => i.closed
  | _, _ => false

/-- The decimal exponent of the first digit of a positive fraction. -/
def firstExponent (f : Nat × Nat) : Int :=
  let length := fun n => ((Nat.toDigits 10 n).length : Int)
  -- The lengths give the exponent or one more.
  let guess := length f.1 - length f.2
  if compareFractions (decimalFraction 1 guess) f == .gt then guess - 1 else guess

/-- The neighbours of the value on the grid of multiples of `10 ^ exponent` that
read back, the nearer one first; at equal distance the even one. -/
def Interval.onGrid (i : Interval) (exponent : Int) : Option Nat :=
  let value := i.at i.value
  let unit := decimalFraction 1 exponent
  let num := value.1 * unit.2
  let den := value.2 * unit.1
  let nearest := roundHalfEven num den
  let other := if nearest = num / den then num / den + 1 else num / den
  if i.contains (decimalFraction nearest exponent) then some nearest
  else if i.contains (decimalFraction other exponent) then some other
  else none

/-- A digit count from `count - left + 1` on whose grid a number reads back,
with that number. -/
def Interval.search (i : Interval) (first : Int) (count : Nat) :
    (left : Nat) → Option (Nat × Int)
  | 0 => none
  | left + 1 =>
    let exponent := first - (count - left - 1)
    match i.onGrid exponent with
    | some n => some (n, exponent)
    | none => i.search first count left

/-- A whole number without the zeros at its end, and how many there were,
up to `limit`. -/
def dropDigitZeros : (limit n : Nat) → Nat × Nat
  | 0, n => (n, 0)
  | limit + 1, n =>
    if n % 10 = 0 then
      let (digits, zeros) := dropDigitZeros limit (n / 10)
      (digits, zeros + 1)
    else (n, 0)

/-- The shortest digits of a double that is not zero. Seventeen digits
always suffice. -/
def shortest (x : Binary64) : Digits :=
  let i := x.interval
  let (n, exponent) := (i.search (firstExponent (i.at i.value)) 17 17).getD (0, 0)
  let (digits, zeros) := dropDigitZeros 17 n
  ⟨digits, exponent + zeros + (Nat.toDigits 10 digits).length - 1⟩

end FieldExpr.Binary64
