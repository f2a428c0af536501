import FieldExpr.Proofs.Decimal.Nearest

/-!
# Sums, products and remainders by value

The units of a result as a function of the units of the operands. A sum or a
product is the decimal nearest to the exact one, a remainder is exact, and
rounding to places rounds the units. Operands of one value therefore give
results of one value, whatever their scales and the signs of their zeros.
-/

namespace FieldExpr.Decimal

variable {a b d : Decimal}

/-! ## Signs -/

theorem signed_mul_signed (p q : Bool) (m n : Nat) :
    signed p m * signed q n = signed (p ^^ q) (m * n) := by
  cases p with
  | false =>
    cases q with
    | false => exact (Int.natCast_mul m n).symm
    | true => exact Int.mul_neg _ _
  | true =>
    cases q with
    | false => exact Int.neg_mul _ _
    | true => exact Int.neg_mul_neg _ _

theorem signed_neg {p : Bool} {m : Nat} (pos : 0 < m) :
    decide (signed p m < 0) = p := by
  cases p with
  | true =>
    show decide (-(m : Int) < 0) = true
    simp only [decide_eq_true_eq]
    omega
  | false =>
    show decide ((m : Int) < 0) = false
    simp only [decide_eq_false_iff_not]
    omega

theorem signed_natAbs (x : Int) : signed (decide (x < 0)) x.natAbs = x := by
  unfold signed
  split
  · rename_i negative
    have less : x < 0 := of_decide_eq_true negative
    omega
  · rename_i positive
    have notLess : ¬ x < 0 := fun less => positive (decide_eq_true less)
    omega

theorem natAbs_units (d : Decimal) :
    d.units.natAbs = d.mantissa * tenPow (maxScale - d.scale) :=
  natAbs_signed _ _

theorem units_eq_zero : d.units = 0 ↔ d.mantissa = 0 := by
  rw [← Int.natAbs_eq_zero, natAbs_units, Nat.mul_eq_zero]
  constructor
  · rintro (zero | zero)
    · exact zero
    · exact absurd zero (Nat.ne_of_gt (tenPow_pos _))
  · exact .inl

/-- A decimal that is not zero shows its sign. -/
theorem units_neg_iff (ne : d.mantissa ≠ 0) : decide (d.units < 0) = d.negative :=
  signed_neg (Nat.mul_pos (Nat.pos_of_ne_zero ne) (tenPow_pos _))

/-! ## The nearest decimal to a signed ratio -/

/-- The decimal nearest to `x / den`, in units of the last place there is. -/
def nearestTo (x : Int) (den : Nat) : Option Int :=
  (nearest x.natAbs den).map (signed (decide (x < 0)))

theorem nearestTo_eq_of_ratio {x y : Int} {den den' : Nat} (pos : 0 < den)
    (pos' : 0 < den') (ratio : x * den' = y * den) :
    nearestTo x den = nearestTo y den' := by
  have magnitudes : x.natAbs * den' = y.natAbs * den := by
    have natAbs := congrArg Int.natAbs ratio
    rwa [Int.natAbs_mul, Int.natAbs_mul, Int.natAbs_natCast, Int.natAbs_natCast]
      at natAbs
  have positive : ∀ {z : Int} {k : Nat}, 0 < k → (z * k < 0 ↔ z < 0) := by
    intro z k pos
    have scaled : z * k < 0 * k ↔ z < 0 := Int.mul_lt_mul_right (by omega)
    rwa [Int.zero_mul] at scaled
  have signs : x < 0 ↔ y < 0 := by rw [← positive pos', ratio, positive pos]
  unfold nearestTo
  rw [nearest_eq_of_ratio pos pos' magnitudes]
  simp only [signs]

/-- What vanishes at the last place is nearest to zero. -/
theorem nearestTo_eq_zero {x : Int} {den : Nat}
    (small : 2 * (x.natAbs * tenPow maxScale) < den) :
    nearestTo x den = some 0 := by
  have rounded : roundHalfEven (x.natAbs * tenPow maxScale) den = 0 := by
    unfold roundHalfEven
    dsimp only
    rw [Nat.div_eq_of_lt (by omega), Nat.mod_eq_of_lt (by omega), if_neg (by omega)]
  have fits : roundHalfEven (x.natAbs * tenPow maxScale) den < capacity := by
    rw [rounded]
    decide
  unfold nearestTo nearest
  rw [nearestFrom_eq_some fits, rounded, Nat.zero_mul]
  exact congrArg some (signed_zero _)

/-- The units of a decimal are those of the decimal nearest to it. -/
theorem nearestTo_units (d : Decimal) :
    nearestTo d.units (tenPow maxScale) = some d.units := by
  have exact : d.units.natAbs * tenPow d.scale = d.mantissa * tenPow maxScale := by
    have exponent : maxScale = maxScale - d.scale + d.scale :=
      (Nat.sub_add_cancel d.scale_le).symm
    rw [natAbs_units, Nat.mul_assoc, ← tenPow_add, ← exponent]
  unfold nearestTo nearest
  rw [nearestFrom_exact (tenPow_pos _) exact d.mantissa_lt d.scale_le
    (Nat.le_refl _), ← natAbs_units]
  exact congrArg some (signed_natAbs _)

/-! ## Operations -/

/-- A sum is the decimal nearest to the exact sum. -/
theorem units_add (a b : Decimal) :
    (a.add b).map units = nearestTo (a.units + b.units) (tenPow maxScale) := by
  unfold add
  split
  · rename_i zero
    rw [units_eq_zero.mpr zero, Int.zero_add, nearestTo_units]
    rfl
  · split
    · rename_i zero
      rw [units_eq_zero.mpr zero, Int.add_zero, nearestTo_units]
      rfl
    · have high : max a.scale b.scale ≤ maxScale :=
        Nat.max_le.mpr ⟨a.scale_le, b.scale_le⟩
      have aligned_left := units_eq (Nat.le_max_left a.scale b.scale) high
      have aligned_right := units_eq (Nat.le_max_right a.scale b.scale) high
      generalize max a.scale b.scale = scale at high aligned_left aligned_right
      have exponent : maxScale = maxScale - scale + scale := by omega
      have ratio : (a.units + b.units) * (tenPow scale : Nat) =
          (a.unitsAt scale + b.unitsAt scale) * (tenPow maxScale : Nat) := by
        rw [aligned_left, aligned_right, ← Int.add_mul,
          Int.mul_assoc, ← Int.natCast_mul, ← tenPow_add, ← exponent]
      rw [nearestTo_eq_of_ratio (tenPow_pos _) (tenPow_pos _) ratio]
      dsimp only
      rw [fit_units fun _ => decide (a.unitsAt scale + b.unitsAt scale < 0)]
      unfold nearestTo
      rw [← fit_worth, Option.map_map]
      rfl

theorem bothShort_iff :
    bothShort a b = true ↔ a.mantissa < 0x100000000 ∧ b.mantissa < 0x100000000 := by
  simp [bothShort]

/-- Two short factors with more than 47 fraction digits between them have a
product that vanishes. -/
theorem product_small (short : bothShort a b = true)
    (many : 47 < a.scale + b.scale) :
    2 * ((a.units * b.units).natAbs * tenPow maxScale) <
      tenPow (maxScale + maxScale) := by
  obtain ⟨left, right⟩ := bothShort_iff.mp short
  have digits : a.mantissa * b.mantissa ≤ 0x100000000 * 0x100000000 :=
    Nat.mul_le_mul (Nat.le_of_lt left) (Nat.le_of_lt right)
  have places : tenPow (maxScale - a.scale) * tenPow (maxScale - b.scale) ≤
      tenPow 8 := by
    rw [← tenPow_add]
    have left_le : a.scale ≤ maxScale := a.scale_le
    have right_le : b.scale ≤ maxScale := b.scale_le
    have total : maxScale + maxScale = 56 := rfl
    exact Nat.pow_le_pow_right (by decide) (by omega)
  have product : (a.units * b.units).natAbs ≤
      0x100000000 * 0x100000000 * tenPow 8 := by
    rw [Int.natAbs_mul, natAbs_units, natAbs_units, Nat.mul_mul_mul_comm]
    exact Nat.mul_le_mul digits places
  have bound : 2 * (0x100000000 * 0x100000000 * tenPow 8 * tenPow maxScale) <
      tenPow (maxScale + maxScale) := by
    decide
  exact Nat.lt_of_le_of_lt
    (Nat.mul_le_mul_left 2 (Nat.mul_le_mul_right _ product)) bound

/-- A product is the decimal nearest to the exact product. -/
theorem units_mul (a b : Decimal) :
    (a.mul b).map units = nearestTo (a.units * b.units)
      (tenPow (maxScale + maxScale)) := by
  unfold mul
  split
  · rename_i zero
    have product : a.units * b.units = 0 := by
      rcases zero with zero | zero
      · rw [units_eq_zero.mpr zero, Int.zero_mul]
      · rw [units_eq_zero.mpr zero, Int.mul_zero]
    rw [product, nearestTo_eq_zero (by decide)]
    rfl
  · rename_i nonzero
    obtain ⟨left, right⟩ := not_or.mp nonzero
    split
    · rename_i vanishes
      rw [nearestTo_eq_zero (product_small vanishes.1 vanishes.2)]
      rfl
    · have exponent :
          maxScale + maxScale = maxScale - a.scale + (maxScale - b.scale) +
          (a.scale + b.scale) := by
        have left_le : a.scale ≤ maxScale := a.scale_le
        have right_le : b.scale ≤ maxScale := b.scale_le
        omega
      have magnitude : (a.units * b.units).natAbs =
          a.mantissa * b.mantissa *
            (tenPow (maxScale - a.scale) * tenPow (maxScale - b.scale)) := by
        rw [Int.natAbs_mul, natAbs_units, natAbs_units, Nat.mul_mul_mul_comm]
      have ratio : (a.units * b.units).natAbs * tenPow (a.scale + b.scale) =
          a.mantissa * b.mantissa * tenPow (maxScale + maxScale) := by
        rw [magnitude, exponent, tenPow_add (_ + _),
          tenPow_add (maxScale - a.scale), Nat.mul_assoc]
      have sign : decide (a.units * b.units < 0) = (a.negative ^^ b.negative) := by
        have positive :
            0 < a.mantissa * tenPow (maxScale - a.scale) *
            (b.mantissa * tenPow (maxScale - b.scale)) :=
          Nat.mul_pos (Nat.mul_pos (Nat.pos_of_ne_zero left) (tenPow_pos _))
            (Nat.mul_pos (Nat.pos_of_ne_zero right) (tenPow_pos _))
        show decide (signed _ _ * signed _ _ < 0) = _
        rw [signed_mul_signed, signed_neg positive]
      dsimp only
      rw [fit_units fun mantissa =>
        (a.negative ^^ b.negative) && !(mantissa == 0 && bothShort a b)]
      unfold nearestTo
      rw [sign, nearest_eq_of_ratio (tenPow_pos _)
        (tenPow_pos _) ratio, ← fit_worth, Option.map_map]
      congr 1
      funext parts
      -- Only a product that rounds to zero can lose its sign.
      show signed _ (worth parts) = signed _ (worth parts)
      cases zero : parts.1 == 0 with
      | false => rw [Bool.false_and, Bool.not_false, Bool.and_true]
      | true =>
        have nothing : worth parts = 0 := by
          unfold worth
          rw [eq_of_beq zero, Nat.zero_mul]
        rw [nothing, signed_zero, signed_zero]

theorem signed_tmod (p q : Bool) (m n : Nat) :
    (signed p m).tmod (signed q n) = signed p (m % n) := by
  cases p <;> cases q <;> simp [signed, ← Int.ofNat_tmod]

/-- A remainder is exact and has the sign of the dividend. -/
theorem units_mod (a : Decimal) (ne : b.mantissa ≠ 0) :
    (a.mod b).map units = some (a.units.tmod b.units) := by
  have high : max a.scale b.scale ≤ maxScale :=
    Nat.max_le.mpr ⟨a.scale_le, b.scale_le⟩
  have left := units_eq (Nat.le_max_left a.scale b.scale) high
  have right := units_eq (Nat.le_max_right a.scale b.scale) high
  rw [unitsAt_eq, signed_mul] at left right
  -- One operand is aligned already, so the remainder fits below its mantissa.
  have fits : a.mantissa * tenPow (max a.scale b.scale - a.scale) %
      (b.mantissa * tenPow (max a.scale b.scale - b.scale)) < capacity := by
    rcases Nat.le_total a.scale b.scale with le | le
    · rw [Nat.max_eq_right le, Nat.sub_self b.scale,
        show b.mantissa * tenPow 0 = b.mantissa from Nat.mul_one _]
      exact Nat.lt_trans (Nat.mod_lt _ (Nat.pos_of_ne_zero ne)) b.mantissa_lt
    · rw [Nat.max_eq_left le, Nat.sub_self a.scale, show a.mantissa * tenPow 0 =
        a.mantissa from Nat.mul_one _]
      exact Nat.lt_of_le_of_lt (Nat.mod_le _ _) a.mantissa_lt
  rw [left, right, signed_tmod, Nat.mul_mod_mul_right]
  unfold mod
  dsimp only
  rw [unitsAt_eq, unitsAt_eq, natAbs_signed, natAbs_signed]
  split
  · rename_i zero
    rw [zero, Nat.zero_mul, Nat.zero_mod, Nat.zero_mul, signed_zero]
    rfl
  · split
    · rename_i equal
      rw [equal, Nat.mod_self, Nat.zero_mul, signed_zero]
      rfl
    · split
      · rename_i less
        rw [Nat.mod_eq_of_lt less, ← left]
        rfl
      · rw [ofParts?_units _ fits high]
        congr 1
        show signed _ (_ * _) = _
        cases zero : a.mantissa * tenPow (max a.scale b.scale - a.scale) %
            (b.mantissa * tenPow (max a.scale b.scale - b.scale)) with
        | zero => rw [Nat.zero_mul, signed_zero, signed_zero]
        | succ rest => simp

theorem units_neg (d : Decimal) : d.neg.units = -d.units := by
  unfold units
  rw [unitsAt_eq, unitsAt_eq]
  show signed (!d.negative) _ = -signed d.negative _
  cases d.negative <;> simp [signed, neg]

/-- Rounding to places rounds the units. -/
theorem units_roundTo (d : Decimal) (places : Nat) :
    (d.roundTo places).units = signed (decide (d.units < 0))
      (roundHalfEven d.units.natAbs (tenPow (maxScale - places)) *
        tenPow (maxScale - places)) := by
  have scale_le : d.scale ≤ maxScale := d.scale_le
  by_cases le : d.scale ≤ places
  · have exponent : maxScale - d.scale = (min places maxScale - d.scale) +
      (maxScale - places) := by omega
    have whole : d.units.natAbs =
        d.mantissa * tenPow (min places maxScale - d.scale) *
          tenPow (maxScale - places) := by
      rw [natAbs_units, exponent, tenPow_add, Nat.mul_assoc]
    rw [roundTo, dif_pos le, whole,
      roundHalfEven_mul_self (tenPow_pos _), ← whole, signed_natAbs]
  · have exponent : maxScale - d.scale + (d.scale - places) =
      maxScale - places := by omega
    have rounded : roundHalfEven d.units.natAbs (tenPow (maxScale - places)) =
        roundHalfEven d.mantissa (tenPow (d.scale - places)) := by
      rw [natAbs_units, ← exponent, Nat.add_comm, tenPow_add,
        roundHalfEven_mul (tenPow_pos _) (tenPow_pos _)]
    rw [rounded, roundTo, dif_neg le]
    show signed _ (_ * _) = _
    dsimp only
    cases zero : roundHalfEven d.mantissa (tenPow (d.scale - places)) with
    | zero => rw [Nat.zero_mul, signed_zero, signed_zero]
    | succ mantissa =>
      have ne : d.mantissa ≠ 0 := by
        intro nothing
        rw [nothing, ← Nat.zero_mul (tenPow (d.scale - places)),
          roundHalfEven_mul_self (tenPow_pos _)] at zero
        cases zero
      rw [units_neg_iff ne]
      simp

end FieldExpr.Decimal
