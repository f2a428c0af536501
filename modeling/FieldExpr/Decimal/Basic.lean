import FieldExpr.Power

/-!
# Fixed-width decimals

A decimal is a sign, a mantissa below `2 ^ 96` and a scale of at most 28
fraction digits; its value is `± mantissa · 10 ^ (- scale)`. Numbers that differ
in scale, or in the sign of zero, can be equal in value: `compare` orders by
value, `normalize` picks one representative of each value.
-/

namespace FieldExpr

/-- A sign, a 96-bit mantissa and a count of fraction digits. -/
structure Decimal where
  /-- The sign; a zero may carry one too. -/
  negative : Bool
  /-- All digits, read as one whole number. -/
  mantissa : Nat
  /-- How many of the digits stand after the point. -/
  scale : Nat
  mantissa_lt : mantissa < 0x1000000000000000000000000 := by decide
  scale_le : scale ≤ 28 := by decide
  deriving DecidableEq

namespace Decimal

/-- The first mantissa that does not fit. -/
abbrev capacity : Nat := 0x1000000000000000000000000

/-- The most fraction digits. -/
abbrev maxScale : Nat := 28

/-- The decimal of these parts, if they fit. -/
def ofParts? (negative : Bool) (mantissa scale : Nat) : Option Decimal :=
  if h : mantissa < capacity ∧ scale ≤ maxScale then
    some ⟨negative, mantissa, scale, h.1, h.2⟩ else none

/-- Zero without a sign or fraction digits. -/
def zero : Decimal :=
  { negative := false, mantissa := 0, scale := 0 }

instance : Inhabited Decimal := ⟨zero⟩

/-- The whole number `n`, without fraction digits. -/
def ofInt (n : Int) (h : n.natAbs < capacity) : Decimal :=
  { negative := decide (n < 0), mantissa := n.natAbs, scale := 0, mantissa_lt := h }

theorem natAbs_toInt_lt_capacity (n : Int64) : n.toInt.natAbs < capacity := by
  have low := Int64.le_toInt n
  have high := Int64.toInt_lt n
  simp only [capacity]
  omega

/-- A machine integer as a decimal; every one fits. -/
def ofInt64 (n : Int64) : Decimal :=
  ofInt n.toInt (natAbs_toInt_lt_capacity n)

/-- A zero of any scale and sign. -/
def isZero (d : Decimal) : Bool :=
  d.mantissa == 0

/-- The same digits under the other sign, also for a zero. -/
def neg (d : Decimal) : Decimal :=
  { d with negative := !d.negative }

/-- The value of `d` in units of `10 ^ (- scale)`, for a scale that is no
smaller than that of `d`. -/
def unitsAt (d : Decimal) (scale : Nat) : Int :=
  let units : Int := (d.mantissa * tenPow (scale - d.scale) : Nat)
  if d.negative then -units else units

/-- The order of values: scale and sign of zero do not matter. -/
def compare (a b : Decimal) : Ordering :=
  let scale := max a.scale b.scale
  Ord.compare (a.unitsAt scale) (b.unitsAt scale)

/-- Equality of values. -/
def same (a b : Decimal) : Bool :=
  a.compare b == .eq

/-- The mantissa and scale without the zeros at the end of the fraction. -/
def dropZeros : (mantissa scale : Nat) → Nat × Nat
  | mantissa, 0 => (mantissa, 0)
  | mantissa, scale + 1 =>
    if mantissa % 10 = 0 then dropZeros (mantissa / 10) scale
      else (mantissa, scale + 1)

theorem dropZeros_fst_le (mantissa scale : Nat) :
    (dropZeros mantissa scale).1 ≤ mantissa := by
  induction scale generalizing mantissa with
  | zero => exact Nat.le_refl _
  | succ scale ih =>
    unfold dropZeros
    split
    · exact Nat.le_trans (ih _) (Nat.div_le_self _ _)
    · exact Nat.le_refl _

theorem dropZeros_snd_le (mantissa scale : Nat) :
    (dropZeros mantissa scale).2 ≤ scale := by
  induction scale generalizing mantissa with
  | zero => exact Nat.le_refl _
  | succ scale ih =>
    unfold dropZeros
    split
    · exact Nat.le_succ_of_le (ih _)
    · exact Nat.le_refl _

/-- The representative of a value: no zeros at the end of the fraction, and zero
itself without a sign. -/
def normalize (d : Decimal) : Decimal :=
  if d.mantissa = 0 then zero
  else
    { negative := d.negative
      mantissa := (dropZeros d.mantissa d.scale).1
      scale := (dropZeros d.mantissa d.scale).2
      mantissa_lt := Nat.lt_of_le_of_lt (dropZeros_fst_le _ _) d.mantissa_lt
      scale_le := Nat.le_trans (dropZeros_snd_le _ _) d.scale_le }

end Decimal

end FieldExpr
