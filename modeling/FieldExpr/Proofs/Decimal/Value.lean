import FieldExpr.Decimal.Basic

/-!
# Values of decimals

A decimal is worth a whole number of units of the smallest place there is
(`units`). Comparing decimals is comparing their units, so equality of values is
an equivalence and the order is that of the integers. Normalising keeps the
units, and two normal decimals with the same units are one: `normalize` picks
exactly one representative of each value.
-/

namespace FieldExpr.Decimal

/-- A magnitude with a sign. -/
def signed (negative : Bool) (magnitude : Nat) : Int :=
  if negative then -(magnitude : Int) else magnitude

@[simp]
theorem natAbs_signed (negative : Bool) (magnitude : Nat) :
    (signed negative magnitude).natAbs = magnitude := by
  unfold signed
  cases negative <;> simp

theorem signed_zero (negative : Bool) : signed negative 0 = 0 := by
  cases negative <;> rfl

theorem signed_mul (negative : Bool) (m n : Nat) :
    signed negative m * (n : Int) = signed negative (m * n) := by
  cases negative with
  | true =>
    show -(m : Int) * n = -((m * n : Nat) : Int)
    rw [Int.neg_mul, Int.natCast_mul]
  | false =>
    show (m : Int) * n = ((m * n : Nat) : Int)
    rw [Int.natCast_mul]

/-- A magnitude above zero shows its sign. -/
theorem signed_inj {p q : Bool} {m n : Nat} (pos : 0 < m)
    (same : signed p m = signed q n) : p = q ∧ m = n := by
  unfold signed at same
  cases p <;> cases q <;> simp at same ⊢ <;> omega

/-- The value in units of the last place that a decimal can have. -/
def units (d : Decimal) : Int :=
  d.unitsAt maxScale

variable {a b c d : Decimal}

/-! ## Units -/

theorem unitsAt_eq (d : Decimal) (scale : Nat) :
    d.unitsAt scale =
      signed d.negative (d.mantissa * tenPow (scale - d.scale)) := rfl

theorem unitsAt_mul {scale : Nat} (le : d.scale ≤ scale) (places : Nat) :
    d.unitsAt scale * (tenPow places : Nat) = d.unitsAt (scale + places) := by
  have exponent : scale + places - d.scale = scale - d.scale + places := by omega
  rw [unitsAt_eq, unitsAt_eq, signed_mul, exponent, tenPow_add, Nat.mul_assoc]

theorem units_eq {scale : Nat} (low : d.scale ≤ scale) (high : scale ≤ maxScale) :
    d.units = d.unitsAt scale * (tenPow (maxScale - scale) : Nat) := by
  rw [unitsAt_mul low]
  unfold units
  congr 1
  omega

/-- Scaling both sides by the same positive number does not change a comparison. -/
theorem compare_mul (x y : Int) {k : Nat} (pos : 0 < k) :
    Ord.compare (x * k) (y * k) = Ord.compare x y := by
  have positive : (0 : Int) < k := by omega
  have less : x * k < y * k ↔ x < y := Int.mul_lt_mul_right positive
  have same : x * k = y * k ↔ x = y := Int.mul_eq_mul_right_iff (by omega)
  show compareOfLessAndEq _ _ = compareOfLessAndEq _ _
  unfold compareOfLessAndEq
  simp only [less, same]

/-- Decimals are in the order of their units. -/
theorem compare_eq (a b : Decimal) : a.compare b = Ord.compare a.units b.units := by
  have high : max a.scale b.scale ≤ maxScale :=
    Nat.max_le.mpr ⟨a.scale_le, b.scale_le⟩
  rw [units_eq (Nat.le_max_left a.scale b.scale) high,
    units_eq (Nat.le_max_right a.scale b.scale) high,
    compare_mul _ _ (tenPow_pos _)]
  rfl

theorem same_iff : a.same b = true ↔ a.units = b.units := by
  unfold same
  rw [compare_eq]
  show (compareOfLessAndEq _ _ == Ordering.eq) = true ↔ _
  unfold compareOfLessAndEq
  split
  · rename_i less
    simp only [beq_iff_eq, reduceCtorEq, false_iff]
    omega
  · split
    · rename_i same
      simp [same]
    · rename_i different
      simp [different]

/-! ## Normal decimals -/

/-- No zero ends the fraction, and zero has neither sign nor fraction. -/
structure IsNormal (d : Decimal) : Prop where
  zero : d.mantissa = 0 → d.negative = false ∧ d.scale = 0
  last : d.scale = 0 ∨ d.mantissa % 10 ≠ 0

theorem dropZeros_units (mantissa scale : Nat) {top : Nat} (le : scale ≤ top) :
    (dropZeros mantissa scale).1 * tenPow (top - (dropZeros mantissa scale).2) =
      mantissa * tenPow (top - scale) := by
  induction scale generalizing mantissa with
  | zero => rfl
  | succ scale ih =>
    unfold dropZeros
    split
    · rename_i ends
      have whole : mantissa = mantissa / 10 * 10 := by omega
      have exponent : top - scale = (top - (scale + 1)) + 1 := by omega
      rw [ih _ (by omega), exponent, tenPow_succ,
        Nat.mul_comm (tenPow _) 10, ← Nat.mul_assoc, ← whole]
    · rfl

theorem dropZeros_last (mantissa scale : Nat) :
    (dropZeros mantissa scale).2 = 0 ∨ (dropZeros mantissa scale).1 % 10 ≠ 0 := by
  induction scale generalizing mantissa with
  | zero => exact .inl rfl
  | succ scale ih =>
    unfold dropZeros
    split
    · exact ih _
    · exact .inr ‹_›

theorem dropZeros_ne_zero {mantissa : Nat} (ne : mantissa ≠ 0) (scale : Nat) :
    (dropZeros mantissa scale).1 ≠ 0 := by
  induction scale generalizing mantissa with
  | zero => exact ne
  | succ scale ih =>
    unfold dropZeros
    split
    · exact ih (by omega)
    · exact ne

theorem normalize_isNormal (d : Decimal) : d.normalize.IsNormal := by
  unfold normalize
  split
  · exact ⟨fun _ => ⟨rfl, rfl⟩, .inl rfl⟩
  · rename_i ne
    exact ⟨fun zero => absurd zero (dropZeros_ne_zero ne _), dropZeros_last _ _⟩

theorem units_normalize (d : Decimal) : d.normalize.units = d.units := by
  unfold normalize
  split
  · rename_i zero
    unfold units
    rw [unitsAt_eq, unitsAt_eq, zero, Nat.zero_mul, signed_zero]
    rfl
  · unfold units
    rw [unitsAt_eq, unitsAt_eq]
    simp only [dropZeros_units d.mantissa d.scale d.scale_le]

/-- Mantissas in different places are worth the same only if the one with more
places ends in a zero. -/
theorem scale_eq_of_mul_eq {m n s t : Nat} (le : s ≤ t) (high : t ≤ maxScale)
    (last : t = 0 ∨ n % 10 ≠ 0)
    (same : m * tenPow (maxScale - s) = n * tenPow (maxScale - t)) : s = t := by
  rcases Nat.eq_or_lt_of_le le with equal | less
  · exact equal
  · -- With fewer places the same value is a multiple of ten in the places
    -- of the other.
    have exponent : maxScale - s = (t - s - 1) + 1 + (maxScale - t) := by omega
    rw [exponent, tenPow_add, tenPow_succ, ← Nat.mul_assoc, ← Nat.mul_assoc] at same
    have ends : m * tenPow (t - s - 1) * 10 = n :=
      Nat.eq_of_mul_eq_mul_right (tenPow_pos _) same
    omega

/-- Normal decimals of one value are one. -/
theorem IsNormal.ext (first : a.IsNormal) (second : b.IsNormal)
    (same : a.units = b.units) : a = b := by
  have magnitudes : a.mantissa * tenPow (maxScale - a.scale) =
      b.mantissa * tenPow (maxScale - b.scale) := by
    have natAbs := congrArg Int.natAbs same
    unfold units at natAbs
    rwa [unitsAt_eq, unitsAt_eq, natAbs_signed, natAbs_signed] at natAbs
  have scales : a.scale = b.scale := by
    rcases Nat.le_total a.scale b.scale with le | le
    · exact scale_eq_of_mul_eq le b.scale_le second.last magnitudes
    · exact (scale_eq_of_mul_eq le a.scale_le first.last magnitudes.symm).symm
  have mantissas : a.mantissa = b.mantissa := by
    rw [scales] at magnitudes
    exact Nat.eq_of_mul_eq_mul_right (tenPow_pos _) magnitudes
  have signs : a.negative = b.negative := by
    rcases Nat.eq_zero_or_pos a.mantissa with zero | pos
    · rw [(first.zero zero).1, (second.zero (mantissas ▸ zero)).1]
    · exact (signed_inj (Nat.mul_pos pos (tenPow_pos (maxScale - a.scale))) same).1
  cases a
  cases b
  simp only at scales mantissas signs
  subst scales mantissas signs
  rfl

/-- Decimals have one value exactly when they have one normal form. -/
theorem same_iff_normalize : a.same b = true ↔ a.normalize = b.normalize := by
  rw [same_iff, ← units_normalize a, ← units_normalize b]
  constructor
  · intro same
    exact (normalize_isNormal a).ext (normalize_isNormal b) same
  · intro same
    rw [same]

theorem IsNormal.normalize_eq (normal : d.IsNormal) : d.normalize = d :=
  (normalize_isNormal d).ext normal (units_normalize d)

end FieldExpr.Decimal
