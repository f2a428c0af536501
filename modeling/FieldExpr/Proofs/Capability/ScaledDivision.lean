import FieldExpr.Capability.Numeric
import FieldExpr.Proofs.Decimal.Division
import FieldExpr.Proofs.Decimal.RoundedTwice

/-!
# Decimal division to a number of places

A quotient of decimals that is asked for with a number of places is rounded
twice: to the digits that fit, and then to the places. The result is a decimal
with that many places that is nearest to the exact quotient, but for two cases
that are told exactly (`divide_places`): the first rounding ends on a middle, or
the digits are just past the capacity.
-/

namespace FieldExpr

namespace Decimal

variable {a b q : Decimal} {places : Nat}

/-! ## Values as rational numbers -/

/-- The number that a decimal stands for. -/
def value (d : Decimal) : ℚ :=
  signed d.negative d.mantissa / 10 ^ d.scale

theorem cast_units (d : Decimal) : (d.units : ℚ) = d.value * 10 ^ maxScale := by
  have exponent : maxScale = maxScale - d.scale + d.scale :=
    (Nat.sub_add_cancel d.scale_le).symm
  have units : d.units = signed d.negative d.mantissa *
      (tenPow (maxScale - d.scale) : Nat) := by
    rw [signed_mul]
    rfl
  have scaled : (10 : ℚ) ^ maxScale = 10 ^ (maxScale - d.scale) * 10 ^
    d.scale := by rw [← pow_add, ← exponent]
  rw [units, value, scaled]
  push_cast
  rw [cast_tenPow]
  field_simp

theorem cast_signed (negative : Bool) (n : Nat) :
    (signed negative n : ℚ) = signed negative 1 * n := by
  cases negative <;> simp [signed]

theorem abs_signed_one (negative : Bool) : |(signed negative 1 : ℚ)| = 1 := by
  cases negative <;> simp [signed]

/-- Two numbers under one sign are as far apart as without it. -/
theorem abs_signed_sub (negative : Bool) (x y : ℚ) :
    |signed negative 1 * x - signed negative 1 * y| = |x - y| := by
  rw [← mul_sub, abs_mul, abs_signed_one, one_mul]

/-! ## Quotients -/

/-- A quotient and the exact ratio have one sign, and the quotient is
nearest without it. -/
theorem exists_nearest_of_div (ne : b.mantissa ≠ 0) (divided : a.div b = some q) :
    ∃ negative m, nearest a.units.natAbs b.units.natAbs = some m ∧
      q.units = signed negative m ∧
      a.value / b.value =
        signed negative 1 * (a.units.natAbs / b.units.natAbs) := by
  have units_ne : b.units ≠ 0 := fun zero => ne (units_eq_zero.mp zero)
  have sign_ne : b.units.sign ≠ 0 :=
    fun zero => units_ne (Int.sign_eq_zero_iff_zero.mp zero)
  have magnitude : (a.units * b.units.sign).natAbs = a.units.natAbs := by
    rw [Int.natAbs_mul, Int.natAbs_sign_of_ne_zero units_ne, Nat.mul_one]
  have units := units_div a ne
  rw [divided, Option.map_some, nearestTo, magnitude] at units
  obtain ⟨m, found, same⟩ := Option.map_eq_some_iff.mp units.symm
  refine ⟨_, m, found, same.symm, ?_⟩
  have dividend : ((a.units * b.units.sign : ℤ) : ℚ) =
      signed (decide (a.units * b.units.sign < 0)) 1 * (a.units.natAbs : ℚ) := by
    rw [← cast_signed, ← magnitude, signed_natAbs]
  have divisor : ((b.units * b.units.sign : ℤ) : ℚ) = (b.units.natAbs : ℚ) := by
    rw [Int.mul_sign_self]
    rfl
  have sign_ne' : (b.units.sign : ℚ) ≠ 0 := by exact_mod_cast sign_ne
  calc a.value / b.value
    _ = a.units / b.units := by
      rw [cast_units, cast_units, mul_div_mul_right _ _ (by positivity)]
    _ = ((a.units * b.units.sign : ℤ) : ℚ) /
        ((b.units * b.units.sign : ℤ) : ℚ) := by
      rw [Int.cast_mul, Int.cast_mul, mul_div_mul_right _ _ sign_ne']
    _ = _ := by rw [dividend, divisor, mul_div_assoc]

theorem units_roundTo_signed {negative : Bool} {m : Nat}
    (units : q.units = signed negative m) :
    (q.roundTo places).units = signed negative (atPlaces places m) := by
  rw [units_roundTo, units, natAbs_signed]
  show signed _ (atPlaces places m) = _
  rcases Nat.eq_zero_or_pos m with rfl | pos
  · have nothing : atPlaces places 0 = 0 := by
      have rounded :=
        roundHalfEven_mul_self (q := 0) (tenPow_pos (maxScale - places))
      rw [Nat.zero_mul] at rounded
      rw [atPlaces, rounded, Nat.zero_mul]
    rw [nothing, signed_zero, signed_zero]
  · rw [signed_neg pos]

theorem scale_roundTo_le (d : Decimal) (places : Nat) :
    (d.roundTo places).scale ≤ places := by
  unfold roundTo
  split
  · assumption
  · exact le_refl _

/-- A decimal is nearer to a signed number exactly when some units
without sign are. -/
theorem exists_closer_decimal_iff (negative : Bool) (n : Nat) {y : ℚ}
    (nonneg : 0 ≤ y) :
    (∃ other : Decimal, other.scale ≤ places ∧
      |(other.units : ℚ) - signed negative 1 * y| <
        |signed negative 1 * n - signed negative 1 * y|) ↔
      ∃ m, IsShown places m ∧ |m - y| < |n - y| := by
  rw [abs_signed_sub]
  constructor
  · rintro ⟨other, within, closer⟩
    refine ⟨other.units.natAbs,
      ⟨other.mantissa, other.scale, other.mantissa_lt, other.scale_le, within,
      natAbs_units other⟩, lt_of_le_of_lt ?_ closer⟩
    have unsigned : |(signed negative 1 * y : ℚ)| = y := by
      rw [abs_mul, abs_signed_one, one_mul, abs_of_nonneg nonneg]
    have magnitude : (other.units.natAbs : ℚ) = |(other.units : ℚ)| := by
      rw [Nat.cast_natAbs, Int.cast_abs]
    calc |(other.units.natAbs : ℚ) - y|
      _ = |(|(other.units : ℚ)| - |signed negative 1 * y|)| := by
        rw [magnitude, unsigned]
      _ ≤ |other.units - signed negative 1 * y| := abs_abs_sub_abs_le _ _
  · rintro ⟨m, ⟨mantissa, scale, fits, le, within, rfl⟩, closer⟩
    refine ⟨⟨negative, mantissa, scale, fits, le⟩, within, ?_⟩
    have units : (units ⟨negative, mantissa, scale, fits, le⟩ : ℚ) =
        signed negative 1 * (mantissa * tenPow (maxScale - scale) : Nat) :=
      cast_signed _ _
    rwa [units, abs_signed_sub]

/-- The quotient that was rounded is halfway between the result and another
decimal with these places, and the exact quotient lies on the side of that
other decimal. -/
def RoundedTwice (places : Nat) (exact : ℚ) (quotient result : Decimal) : Prop :=
  2 * |quotient.value - result.value| = 1 / 10 ^ places ∧
    0 < (quotient.value - result.value) * (exact - quotient.value)

/-- The same in units, without the signs. -/
theorem roundedTwice_iff {negative : Bool} {quotient result : Decimal}
    {exact x y z : ℚ} (le : places ≤ maxScale)
    (first : 10 ^ maxScale * quotient.value = signed negative 1 * x)
    (second : 10 ^ maxScale * result.value = signed negative 1 * y)
    (third : 10 ^ maxScale * exact = signed negative 1 * z) :
    RoundedTwice places exact quotient result ↔
      2 * |x - y| = tenPow (maxScale - places) ∧ 0 < (x - y) * (z - x) := by
  have unit_pos : (0 : ℚ) < 10 ^ maxScale := by positivity
  have distance :
      2 * |x - y| = 10 ^ maxScale * (2 * |quotient.value - result.value|) := by
    rw [← abs_signed_sub negative, ← first, ← second, ← mul_sub, abs_mul,
      abs_of_pos unit_pos]
    ring
  have half : (tenPow (maxScale - places) : ℚ) =
      10 ^ maxScale * (1 / 10 ^ places) := by
    have exponent : maxScale = maxScale - places + places :=
      (Nat.sub_add_cancel le).symm
    have scaled : (10 : ℚ) ^ maxScale = 10 ^ (maxScale - places) * 10 ^
      places := by rw [← pow_add, ← exponent]
    rw [cast_tenPow, scaled]
    field_simp
  have square : (signed negative 1 : ℚ) * signed negative 1 = 1 := by
    cases negative <;> simp [signed]
  have side : (x - y) * (z - x) =
      10 ^ maxScale * 10 ^ maxScale *
        ((quotient.value - result.value) * (exact - quotient.value)) := by
    calc (x - y) * (z - x)
      _ = (signed negative 1 * signed negative 1) * ((x - y) * (z - x)) := by
        rw [square, one_mul]
      _ = (signed negative 1 * x - signed negative 1 * y) *
        (signed negative 1 * z - signed negative 1 * x) := by ring
      _ = _ := by
        rw [← first, ← second, ← third]
        ring
  rw [distance, half, side, mul_right_inj' unit_pos.ne',
    mul_pos_iff_of_pos_left (mul_pos unit_pos unit_pos)]
  rfl

theorem exists_closer_roundTo_iff (le : places ≤ maxScale) (ne : b.mantissa ≠ 0)
    (divided : a.div b = some q) :
    (∃ other : Decimal, other.scale ≤ places ∧
      |other.value - a.value / b.value| <
        |(q.roundTo places).value - a.value / b.value|) ↔
      RoundedTwice places (a.value / b.value) q (q.roundTo places) ∨
      PastCapacity places |a.value / b.value| := by
  obtain ⟨negative, m, found, quotient, ratio⟩ := exists_nearest_of_div ne divided
  have pos : 0 < b.units.natAbs :=
    Int.natAbs_pos.mpr fun zero => ne (units_eq_zero.mp zero)
  have nonneg : 0 ≤ (a.units.natAbs : ℚ) / b.units.natAbs := by positivity
  have magnitude : |a.value / b.value| = (a.units.natAbs : ℚ) / b.units.natAbs := by
    rw [ratio, abs_mul, abs_signed_one, one_mul, abs_of_nonneg nonneg]
  have unit_pos : (0 : ℚ) < 10 ^ maxScale := by positivity
  have result : (q.roundTo places).units =
    signed negative (atPlaces places m) := units_roundTo_signed quotient
  have exact : (10 : ℚ) ^ maxScale * (a.value / b.value) =
      signed negative 1 *
        ((a.units.natAbs : ℚ) / b.units.natAbs * tenPow maxScale) := by
    rw [ratio, cast_tenPow]
    ring
  have closer (other : Decimal) :
      |other.value - a.value / b.value| <
        |(q.roundTo places).value - a.value / b.value| ↔
        |(other.units : ℚ) - signed negative 1 *
          ((a.units.natAbs : ℚ) / b.units.natAbs * tenPow maxScale)| <
          |signed negative 1 * (atPlaces places m : ℚ) -
            signed negative 1 *
              ((a.units.natAbs : ℚ) / b.units.natAbs * tenPow maxScale)| := by
    rw [← abs_scaled_lt_iff unit_pos, exact, mul_comm _ other.value,
      mul_comm _ (q.roundTo places).value, ← cast_units,
      ← cast_units, result, cast_signed negative (atPlaces places m)]
  simp only [closer]
  rw [exists_closer_decimal_iff negative (atPlaces places m) (by positivity),
    exists_closer_iff pos found rfl, magnitude]
  refine or_congr_left (roundedTwice_iff le ?_ ?_ exact).symm
  · rw [mul_comm, ← cast_units, quotient, cast_signed]
  · rw [mul_comm, ← cast_units, result, cast_signed]

end Decimal

namespace Number

/-- A quotient to a number of places has no more places, and is the quotient
that fits rounded half to even. A decimal with these places is nearer to the
exact quotient exactly when the quotient was rounded twice or its digits are
just past the capacity. -/
theorem divide_places {left right : Decimal} {places : Nat} {answer : Number}
    (le : places ≤ Decimal.maxScale)
    (divided : (Number.decimal left).divide (.decimal right) (some places) =
      .ok answer) :
    ∃ quotient result : Decimal,
      (Number.decimal left).divide (.decimal right) none = .ok (.decimal quotient) ∧
      answer = .decimal result ∧ result.scale ≤ places ∧
      result = quotient.roundTo places ∧
      ((∃ other : Decimal, other.scale ≤ places ∧
        |other.value - left.value / right.value| <
          |result.value - left.value / right.value|) ↔
        Decimal.RoundedTwice places (left.value / right.value) quotient result ∨
          Decimal.PastCapacity places |left.value / right.value|) := by
  have ne : right.mantissa ≠ 0 := by
    intro zero
    simp [divide, isZero, Decimal.isZero, zero] at divided
  have unscaled : (Number.decimal left).divide (.decimal right) none =
      orOverflow ((left.div right).map .decimal) := by
    simp [divide, isZero, Decimal.isZero, ne, toDecimal]
  have scaled : (Number.decimal left).divide (.decimal right) (some places) =
      orOverflow ((left.div right).map fun q => .decimal (q.roundTo places)) := by
    simp [divide, isZero, Decimal.isZero, ne, toDecimal]
  rw [scaled] at divided
  cases found : left.div right with
  | none =>
    rw [found] at divided
    cases divided
  | some quotient =>
    rw [found] at divided unscaled
    cases divided
    exact ⟨quotient, quotient.roundTo places, unscaled, rfl,
      quotient.scale_roundTo_le places, rfl,
      Decimal.exists_closer_roundTo_iff le ne found⟩

/-- Two. -/
def two : Decimal :=
  .ofInt 2 (by decide)

/-- Three. -/
def three : Decimal :=
  .ofInt 3 (by decide)

/-- Two thirds to four places. -/
def twoThirds : Decimal :=
  { negative := false, mantissa := 6667, scale := 4 }

/-- The quotient of two and three has more places, and no decimal with four of
them is nearer. -/
theorem divide_places_twoThirds :
    (decimal two).divide (.decimal three) (some 4) = .ok (.decimal twoThirds) ∧
      ¬ ∃ other : Decimal, other.scale ≤ 4 ∧
      |other.value - 2 / 3| < |twoThirds.value - 2 / 3| := by
  have divided : (decimal two).divide (.decimal three) (some 4) =
    .ok (.decimal twoThirds) := rfl
  refine ⟨divided, ?_⟩
  obtain ⟨quotient, result, unscaled, same, _, _, closer⟩ :=
    divide_places (by decide) divided
  have developed : (decimal two).divide (.decimal three) none =
      .ok (.decimal
        { negative := false, mantissa := 6666666666666666666666666667, scale := 28 }) :=
    rfl
  rw [developed] at unscaled
  cases unscaled
  cases same
  have exact : two.value / three.value = 2 / 3 := by
    norm_num [Decimal.value, Decimal.signed, Decimal.ofInt, two, three]
  rw [exact] at closer
  rw [closer]
  rintro (⟨middle, _⟩ | ⟨scale, _, within, low, _⟩)
  · norm_num [Decimal.value, Decimal.signed, twoThirds, abs_of_neg] at middle
  · have few : (10 : ℚ) ^ scale ≤ 10 ^ 4 := pow_le_pow_right₀ (by norm_num) within
    norm_num [Decimal.capacity] at low
    linarith

/-- A little more than one half of `10 ^ 28 + 1`. -/
def pastHalf : Decimal :=
  .ofInt 5000000000000000000000000001 (by decide)

/-- What `pastHalf` is divided by. -/
def doubled : Decimal :=
  .ofInt 10000000000000000000000000001 (by decide)

/-- Half the capacity. -/
def halfCapacity : Decimal :=
  .ofInt 39614081257132168796771975168 (by decide)

/-- One half of `10 ^ 28`. -/
def halfUnit : Decimal :=
  .ofInt 5000000000000000000000000000 (by decide)

/-- A quotient past one half whose digits say one half goes to zero, though one
is nearer; and a quotient whose digits are the capacity loses the last one,
though the largest mantissa is nearer. -/
theorem exists_closer_pastHalf :
    ((decimal pastHalf).divide (.decimal doubled) (some 0) = .ok (.decimal .zero) ∧
      ∃ other : Decimal, other.scale ≤ 0 ∧
        |other.value - pastHalf.value / doubled.value| <
          |Decimal.zero.value - pastHalf.value / doubled.value|) ∧
    ∃ result : Decimal, (decimal halfCapacity).divide (.decimal halfUnit)
      (some 28) = .ok (.decimal result) ∧
      ∃ other : Decimal, other.scale ≤ 28 ∧
        |other.value - halfCapacity.value / halfUnit.value| <
          |result.value - halfCapacity.value / halfUnit.value| := by
  refine ⟨⟨rfl, { negative := false, mantissa := 1, scale := 0 }, le_refl 0, ?_⟩,
    { negative := false, mantissa := 7922816251426433759354395034,
      scale := 27 }, rfl,
    { negative := false, mantissa := 79228162514264337593543950335,
      scale := 28 }, le_refl 28, ?_⟩
  · norm_num [Decimal.value, Decimal.signed, Decimal.ofInt, Decimal.zero,
      pastHalf, doubled, abs_of_pos]
  · norm_num [Decimal.value, Decimal.signed, Decimal.ofInt, halfCapacity,
      halfUnit, abs_of_pos, abs_of_neg]

end Number

end FieldExpr
