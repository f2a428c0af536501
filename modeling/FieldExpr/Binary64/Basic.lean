import FieldExpr.Power
import FieldExpr.Rounding

/-!
# Finite binary64 numbers

A finite double is a sign and `significand · 2 ^ exponent` with a significand of
53 bits. Its operations are the exact ones on fractions followed by one rounding
to nearest, ties to even, so everything here is arithmetic on whole numbers.
-/

namespace FieldExpr

/-- A finite double. The significand has 53 bits, or the exponent is the
least one, -1074. -/
structure Binary64 where
  negative : Bool
  significand : Nat
  exponent : Int
  deriving DecidableEq

namespace Binary64

/-- The least exponent, that of the subnormal numbers. -/
abbrev minExponent : Int := -1074

/-- The greatest exponent of a finite number. -/
abbrev maxExponent : Int := 971

/-- A zero with a sign. -/
def zero (negative : Bool) : Binary64 :=
  ⟨negative, 0, minExponent⟩

/-- A zero of either sign. -/
def isZero (x : Binary64) : Bool :=
  x.significand == 0

/-- The same magnitude with the other sign. -/
def neg (x : Binary64) : Binary64 :=
  { x with negative := !x.negative }

/-- `mantissa · 2 ^ exponent` as a fraction. -/
def fraction (mantissa : Nat) (exponent : Int) : Nat × Nat :=
  if 0 ≤ exponent then (mantissa * twoPow exponent.toNat, 1)
    else (mantissa, twoPow (-exponent).toNat)

/-- The exponent of the power of two at or below `num / den`, for positive
`num` and `den`. -/
def floorLog2 (num den : Nat) : Int :=
  let guess : Int := (num.log2 : Int) - (den.log2 : Int)
  let reached := if 0 ≤ guess then den * twoPow guess.toNat ≤ num
    else den ≤ num * twoPow (-guess).toNat
  if reached then guess else guess - 1

/-- The double nearest to `± num / den`, ties to even; `none` when it is too
large to be finite. -/
def ofFraction? (negative : Bool) (num den : Nat) : Option Binary64 :=
  if num = 0 then some (zero negative)
  else
    let exponent := max (floorLog2 num den - 52) minExponent
    let significand :=
      if 0 ≤ exponent then roundHalfEven num (den * twoPow exponent.toNat)
      else roundHalfEven (num * twoPow (-exponent).toNat) den
    let (significand, exponent) :=
      if significand = 0x20000000000000 then (0x10000000000000, exponent + 1)
        else (significand, exponent)
    if maxExponent < exponent then none else some ⟨negative, significand, exponent⟩

/-- The magnitude as a fraction. -/
def magnitude (x : Binary64) : Nat × Nat :=
  fraction x.significand x.exponent

/-- The double nearest to a natural number. -/
def ofNat? (n : Nat) : Option Binary64 :=
  ofFraction? false n 1

/-- The rounded product; `none` when it is not finite. -/
def mul? (x y : Binary64) : Option Binary64 :=
  let (num, den) :=
    fraction (x.significand * y.significand) (x.exponent + y.exponent)
  ofFraction? (x.negative ^^ y.negative) num den

/-- The rounded quotient; `none` when it is not finite. -/
def div? (x y : Binary64) : Option Binary64 :=
  if y.significand = 0 then none
  else
    let (num, den) := fraction x.significand (x.exponent - y.exponent)
    ofFraction? (x.negative ^^ y.negative) num (den * y.significand)

end Binary64

end FieldExpr
