import FieldExpr.Binary64.Shortest
import Mathlib.Algebra.Order.Field.Power
import Mathlib.Data.Int.Log
import Mathlib.Data.Rat.Cast.Order
import Mathlib.Data.Rat.Floor
import Mathlib.Tactic.FieldSimp
import Mathlib.Tactic.Linarith
import Mathlib.Tactic.Positivity
import Mathlib.Tactic.Qify
import Mathlib.Tactic.Ring

/-!
# The double nearest to a fraction

Doubles are computed on fractions of whole numbers; here the fractions are read
as rational numbers. The exponent is that of the power of two at or below the
number (`floorLog2_eq`), the significand is the nearest whole number of last
bits (`ofFraction?_eq`), and a number that has few enough bits is not rounded at
all (`ofFraction?_exact`).
-/

namespace FieldExpr

/-! ## Fractions -/

/-- The number that a fraction stands for. -/
def ratio (f : Nat × Nat) : ℚ :=
  f.1 / f.2

theorem num_pos_of_ratio {f : Nat × Nat} (pos : 0 < ratio f) : 0 < f.1 := by
  refine Nat.pos_of_ne_zero fun zero => ?_
  rw [ratio, zero, Nat.cast_zero, zero_div] at pos
  exact lt_irrefl _ pos

theorem cast_twoPow (n : Nat) : (twoPow n : ℚ) = 2 ^ n := by
  show ((2 ^ n : ℕ) : ℚ) = 2 ^ n
  push_cast
  rfl

theorem cast_tenPow (n : Nat) : (tenPow n : ℚ) = 10 ^ n := by
  show ((10 ^ n : ℕ) : ℚ) = 10 ^ n
  push_cast
  rfl

theorem twoPow_pos (n : Nat) : 0 < twoPow n :=
  Nat.pow_pos (by decide)

namespace Binary64

theorem fraction_den_pos (m : Nat) (e : Int) : 0 < (fraction m e).2 := by
  unfold fraction
  split
  · exact Nat.one_pos
  · exact twoPow_pos _

theorem ratio_fraction (m : Nat) (e : Int) : ratio (fraction m e) = m * 2 ^ e := by
  unfold ratio fraction
  split
  · rename_i nonneg
    lift e to ℕ using nonneg
    simp [cast_twoPow]
  · rename_i negative
    obtain ⟨n, rfl⟩ : ∃ n : ℕ, e = -n := ⟨(-e).toNat, by omega⟩
    simp [cast_twoPow, div_eq_mul_inv]

theorem decimalFraction_den_pos (n : Nat) (e : Int) :
    0 < (decimalFraction n e).2 := by
  unfold decimalFraction
  split
  · exact Nat.one_pos
  · exact tenPow_pos _

theorem ratio_decimalFraction (n : Nat) (e : Int) :
    ratio (decimalFraction n e) = n * 10 ^ e := by
  unfold ratio decimalFraction
  split
  · rename_i nonneg
    lift e to ℕ using nonneg
    simp [cast_tenPow]
  · rename_i negative
    obtain ⟨n, rfl⟩ : ∃ n : ℕ, e = -n := ⟨(-e).toNat, by omega⟩
    simp [cast_tenPow, div_eq_mul_inv]

/-- Comparing fractions is comparing the numbers that they stand for. -/
theorem compareFractions_eq {a b : Nat × Nat} (left : 0 < a.2) (right : 0 < b.2) :
    compareFractions a b = compare (ratio a) (ratio b) := by
  have left : (0 : ℚ) < a.2 := by exact_mod_cast left
  have right : (0 : ℚ) < b.2 := by exact_mod_cast right
  have less : ∀ m n : ℕ, (m : ℚ) / a.2 < n / b.2 ↔ m * b.2 < n * a.2 := by
    intro m n
    rw [div_lt_div_iff₀ left right]
    exact_mod_cast Iff.rfl
  have same : (a.1 : ℚ) / a.2 = b.1 / b.2 ↔ a.1 * b.2 = b.1 * a.2 := by
    rw [div_eq_div_iff left.ne' right.ne']
    exact_mod_cast Iff.rfl
  have more : (b.1 : ℚ) / b.2 < a.1 / a.2 ↔ b.1 * a.2 < a.1 * b.2 := by
    rw [div_lt_div_iff₀ right left]
    exact_mod_cast Iff.rfl
  unfold compareFractions ratio
  rcases lt_trichotomy (a.1 * b.2) (b.1 * a.2) with lt | eq | gt
  · rw [compare_lt_iff_lt.mpr lt, compare_lt_iff_lt.mpr ((less _ _).mpr lt)]
  · rw [compare_eq_iff_eq.mpr eq, compare_eq_iff_eq.mpr (same.mpr eq)]
  · rw [compare_gt_iff_gt.mpr gt, compare_gt_iff_gt.mpr (more.mpr gt)]

/-! ## Exponents -/

theorem log_eq {b : ℕ} (base : 1 < b) {q : ℚ} {n : ℤ} (low : (b : ℚ) ^ n ≤ q)
    (high : q < (b : ℚ) ^ (n + 1)) :
    Int.log b q = n := by
  have pos : 0 < q :=
    lt_of_lt_of_le (zpow_pos (by exact_mod_cast Nat.zero_lt_of_lt base) n) low
  have above := (Int.lt_zpow_iff_log_lt base pos).mp high
  have below := (Int.zpow_le_iff_le_log base pos).mp low
  omega

/-- The exponent of the power at or below a fraction is the difference of those
of its terms, or one less. -/
theorem log_ratio {b : ℕ} (base : 1 < b) {m n i j : ℕ}
    (num : b ^ i ≤ m ∧ m < b ^ (i + 1)) (den : b ^ j ≤ n ∧ n < b ^ (j + 1)) :
    Int.log b ((m : ℚ) / n) = if (b : ℚ) ^ ((i : ℤ) - j) ≤ m / n then
    (i : ℤ) - j else (i : ℤ) - j - 1 := by
  have b_pos : (0 : ℚ) < b := by exact_mod_cast Nat.zero_lt_of_lt base
  have n_pos : (0 : ℚ) < n := by
    exact_mod_cast Nat.lt_of_lt_of_le (Nat.pow_pos (Nat.zero_lt_of_lt base)) den.1
  have num_low : (b : ℚ) ^ i ≤ m := by exact_mod_cast num.1
  have num_high : (m : ℚ) < b ^ (i + 1) := by exact_mod_cast num.2
  have den_low : (b : ℚ) ^ j ≤ n := by exact_mod_cast den.1
  have den_high : (n : ℚ) < b ^ (j + 1) := by exact_mod_cast den.2
  split
  · rename_i reached
    refine log_eq base reached ?_
    rw [div_lt_iff₀ n_pos]
    calc (m : ℚ) < b ^ (i + 1) := num_high
      _ = b ^ ((i : ℤ) - j + 1) * b ^ j := by
        rw [← zpow_natCast, ← zpow_natCast, ← zpow_add₀ b_pos.ne']
        congr 1
        push_cast
        ring
      _ ≤ b ^ ((i : ℤ) - j + 1) * n := by gcongr
  · rename_i missed
    refine log_eq base ?_ ?_
    · rw [le_div_iff₀ n_pos]
      calc (b : ℚ) ^ ((i : ℤ) - j - 1) * n
          ≤ b ^ ((i : ℤ) - j - 1) * b ^ (j + 1) := by gcongr
        _ = b ^ i := by
          rw [← zpow_natCast, ← zpow_natCast, ← zpow_add₀ b_pos.ne']
          congr 1
          push_cast
          ring
        _ ≤ m := num_low
    · rw [sub_add_cancel]
      exact lt_of_not_ge missed

theorem floorLog2_eq {num den : Nat} (num_pos : 0 < num) (den_pos : 0 < den) :
    floorLog2 num den = Int.log 2 ((num : ℚ) / den) := by
  have den_cast : (0 : ℚ) < den := by exact_mod_cast den_pos
  have bounds : ∀ n : ℕ, 0 < n → 2 ^ n.log2 ≤ n ∧ n < 2 ^ (n.log2 + 1) := by
    intro n pos
    exact ⟨Nat.log2_self_le (Nat.pos_iff_ne_zero.mp pos), Nat.lt_log2_self⟩
  rw [log_ratio (by decide) (bounds num num_pos) (bounds den den_pos)]
  unfold floorLog2
  dsimp only
  generalize (num.log2 : ℤ) - den.log2 = guess
  have reached :
      (if 0 ≤ guess then den * twoPow guess.toNat ≤ num
        else den ≤ num * twoPow (-guess).toNat) ↔
      ((2 : ℕ) : ℚ) ^ guess ≤ num / den := by
    rw [le_div_iff₀ den_cast, Nat.cast_ofNat]
    split
    · rename_i nonneg
      lift guess to ℕ using nonneg
      rw [Int.toNat_natCast, zpow_natCast, ← cast_twoPow, mul_comm (den : ℕ)]
      exact_mod_cast Iff.rfl
    · rename_i negative
      obtain ⟨n, rfl⟩ : ∃ n : ℕ, guess = -n := ⟨(-guess).toNat, by omega⟩
      rw [neg_neg, Int.toNat_natCast, zpow_neg, zpow_natCast, ← cast_twoPow,
        inv_mul_le_iff₀ (by exact_mod_cast twoPow_pos n), mul_comm (num : ℕ)]
      exact_mod_cast Iff.rfl
  simp only [reached]

/-! ## Rounding -/

/-- A whole number is nearest to a number; of two nearest ones it is the even
one. -/
structure IsNearest (n : ℕ) (q : ℚ) : Prop where
  near : |q - n| ≤ 1 / 2
  even : |q - n| = 1 / 2 → n % 2 = 0

theorem isNearest_roundHalfEven (num : Nat) {den : Nat} (pos : 0 < den) :
    IsNearest (roundHalfEven num den) ((num : ℚ) / den) := by
  have den_pos : (0 : ℚ) < den := by exact_mod_cast pos
  have parts : (num : ℚ) = (num / den : ℕ) * den + (num % den : ℕ) := by
    exact_mod_cast (Nat.div_add_mod' num den).symm
  have value : (num : ℚ) / den = (num / den : ℕ) + ((num % den : ℕ) : ℚ) / den := by
    rw [parts]
    field_simp
  have rest_nonneg : 0 ≤ ((num % den : ℕ) : ℚ) / den := by positivity
  have rest_lt : ((num % den : ℕ) : ℚ) / den < 1 := by
    rw [div_lt_one den_pos]
    exact_mod_cast Nat.mod_lt num pos
  have low : ((num % den : ℕ) : ℚ) / den ≤ 1 / 2 ↔ 2 * (num % den) ≤ den := by
    rw [div_le_div_iff₀ den_pos two_pos, one_mul, mul_comm]
    exact_mod_cast Iff.rfl
  have half : ((num % den : ℕ) : ℚ) / den = 1 / 2 ↔ 2 * (num % den) = den := by
    rw [div_eq_div_iff den_pos.ne' two_ne_zero, one_mul, mul_comm]
    exact_mod_cast Iff.rfl
  unfold roundHalfEven
  dsimp only
  rw [value]
  generalize ((num % den : ℕ) : ℚ) / den = rest at *
  split
  · -- Upwards the distance is what the rest leaves of one.
    rename_i up
    have distance : |((num / den : ℕ) : ℚ) + rest - (num / den + 1 : ℕ)| =
        1 - rest := by
      rw [Nat.cast_add, Nat.cast_one, add_sub_add_left_eq_sub, abs_sub_comm,
        abs_of_pos (by linarith)]
    have above : 1 / 2 ≤ rest := by
      rcases le_total rest (1 / 2) with below | above
      · have small := low.mp below
        exact (half.mpr (by omega)).ge
      · exact above
    constructor
    · rw [distance]
      linarith
    · intro tie
      rw [distance] at tie
      have exact := half.mp (by linarith)
      omega
  · rename_i down
    have distance : |((num / den : ℕ) : ℚ) + rest - (num / den : ℕ)| = rest := by
      rw [add_sub_cancel_left, abs_of_nonneg rest_nonneg]
    constructor
    · rw [distance]
      exact low.mpr (by omega)
    · intro tie
      rw [distance] at tie
      have exact := half.mp tie
      omega

namespace IsNearest

variable {n m : ℕ} {q : ℚ}

theorem le (nearest : IsNearest n q) (low : (m : ℚ) ≤ q) : m ≤ n := by
  have near := abs_le.mp nearest.near
  have above : (m : ℚ) < n + 1 := by linarith
  have above : m < n + 1 := by exact_mod_cast above
  exact Nat.le_of_lt_succ above

theorem ge (nearest : IsNearest n q) (high : q ≤ m) : n ≤ m := by
  have near := abs_le.mp nearest.near
  have below : (n : ℚ) < m + 1 := by linarith
  have below : n < m + 1 := by exact_mod_cast below
  exact Nat.le_of_lt_succ below

/-- A whole number is nearest only to itself among the whole numbers. -/
theorem eq_of_natCast (nearest : IsNearest n m) : n = m :=
  Nat.le_antisymm (nearest.ge (le_refl _)) (nearest.le (le_refl _))

end IsNearest

/-! ## Doubles -/

/-- The value of a double without its sign. -/
def absolute (x : Binary64) : ℚ :=
  x.significand * 2 ^ x.exponent

theorem significand_ne_zero {x : Binary64} (pos : 0 < x.absolute) :
    x.significand ≠ 0 := by
  rintro zero
  rw [absolute, zero, Nat.cast_zero, zero_mul] at pos
  exact lt_irrefl _ pos

variable {num den : Nat}

/-- A positive fraction that is neither tiny nor huge is rounded to the whole
number of last bits that is nearest. -/
theorem ofFraction?_eq (negative : Bool) (num_pos : 0 < num) (den_pos : 0 < den)
    (low : -1022 ≤ Int.log 2 ((num : ℚ) / den))
    (high : Int.log 2 ((num : ℚ) / den) ≤ 1022) :
    ∃ s : ℕ, IsNearest s
      ((num : ℚ) / den / 2 ^ (Int.log 2 ((num : ℚ) / den) - 52)) ∧
      ofFraction? negative num den = some (if s = 0x20000000000000
        then ⟨negative, 0x10000000000000, Int.log 2 ((num : ℚ) / den) - 51⟩
        else ⟨negative, s, Int.log 2 ((num : ℚ) / den) - 52⟩) := by
  have den_cast : (den : ℚ) ≠ 0 := by exact_mod_cast den_pos.ne'
  unfold ofFraction?
  rw [if_neg num_pos.ne', floorLog2_eq num_pos den_pos]
  generalize Int.log 2 ((num : ℚ) / den) = first at *
  dsimp only
  have normal : minExponent ≤ first - 52 := by
    simp only [minExponent]
    omega
  rw [max_eq_left normal]
  generalize exponent_eq : first - 52 = exponent
  generalize rounded_eq :
    (if 0 ≤ exponent then roundHalfEven num (den * twoPow exponent.toNat)
    else roundHalfEven (num * twoPow (-exponent).toNat) den) = s
  refine ⟨s, ?_, ?_⟩
  · rw [← rounded_eq]
    split
    · rename_i nonneg
      lift exponent to ℕ using nonneg
      rw [Int.toNat_natCast, zpow_natCast, ← cast_twoPow, div_div, ← Nat.cast_mul]
      exact isNearest_roundHalfEven num (Nat.mul_pos den_pos (twoPow_pos _))
    · rename_i negative
      obtain ⟨n, rfl⟩ : ∃ n : ℕ, exponent = -n := ⟨(-exponent).toNat, by omega⟩
      have value : (num : ℚ) / den / 2 ^ (-(n : ℤ)) =
          ((num * twoPow n : ℕ) : ℚ) / den := by
        rw [Nat.cast_mul, cast_twoPow, zpow_neg, zpow_natCast, div_inv_eq_mul]
        ring
      rw [neg_neg, Int.toNat_natCast, value]
      exact isNearest_roundHalfEven _ den_pos
  · have finite : ¬ maxExponent < exponent + 1 := by
      simp only [maxExponent]
      omega
    by_cases carry : s = 0x20000000000000
    · rw [if_pos carry, if_pos carry]
      dsimp only
      rw [if_neg finite, ← exponent_eq]
      congr 2
      omega
    · rw [if_neg carry, if_neg carry]
      dsimp only
      rw [if_neg (by omega)]

/-- A power of two whose multiple by few enough bits reaches a number is not
much less than its last bit. -/
theorem log_le_of_bits {a : ℕ} {j : ℤ} {q : ℚ} (pos : 0 < q)
    (value : q = a * 2 ^ j) (fits : a < 0x20000000000000) :
    Int.log 2 q - 52 ≤ j := by
  have below : q < 2 ^ (j + 53) := by
    rw [value, zpow_add₀ two_ne_zero, mul_comm]
    have bits : (a : ℚ) < 2 ^ (53 : ℤ) := by
      norm_num
      exact_mod_cast fits
    gcongr
  have above := (Int.lt_zpow_iff_log_lt (b := 2) (by decide) pos).mp
    (by exact_mod_cast below)
  omega

/-- A fraction of few enough bits is a double. -/
theorem ofFraction?_exact (negative : Bool) (num_pos : 0 < num) (den_pos : 0 < den)
    (low : -1022 ≤ Int.log 2 ((num : ℚ) / den))
    (high : Int.log 2 ((num : ℚ) / den) ≤ 1022) {a : ℕ} {j : ℤ}
    (value : (num : ℚ) / den = a * 2 ^ j) (fits : a < 0x20000000000000) :
    ∃ x, ofFraction? negative num den = some x ∧ x.absolute = (num : ℚ) / den := by
  have pos : (0 : ℚ) < (num : ℚ) / den := by positivity
  obtain ⟨s, nearest, result⟩ := ofFraction?_eq negative num_pos den_pos low high
  have above := log_le_of_bits pos value fits
  generalize Int.log 2 ((num : ℚ) / den) = first at *
  -- The number is a whole number of last bits, so rounding does not change it.
  obtain ⟨n, exponent⟩ : ∃ n : ℕ, j = first - 52 + n :=
    ⟨(j - (first - 52)).toNat, by omega⟩
  have whole : (num : ℚ) / den / 2 ^ (first - 52) = (a * 2 ^ n : ℕ) := by
    rw [value, exponent, zpow_add₀ two_ne_zero, zpow_natCast,
      div_eq_iff (by positivity)]
    push_cast
    ring
  have same : a * 2 ^ n = s := by
    rw [whole] at nearest
    exact nearest.eq_of_natCast.symm
  have total : (s : ℚ) * 2 ^ (first - 52) = (num : ℚ) / den := by
    rw [← same, ← whole, div_mul_cancel₀ _ (by positivity)]
  refine ⟨_, result, ?_⟩
  split
  · rename_i carry
    have next : first - 51 = first - 52 + 1 := by ring
    rw [← total, carry]
    unfold absolute
    rw [next, zpow_add₀ two_ne_zero]
    norm_num
    ring
  · exact total

/-- A natural number of few enough bits, and zeros behind them, is a double. -/
theorem ofNat?_exact {a j : ℕ} (pos : 0 < a) (fits : a < 0x20000000000000)
    (small : j ≤ 900) :
    ∃ x, ofNat? (a * 2 ^ j) = some x ∧ x.absolute = (a * 2 ^ j : ℕ) := by
  have num_pos : 0 < a * 2 ^ j := by positivity
  have value : ((a * 2 ^ j : ℕ) : ℚ) / (1 : ℕ) = a * 2 ^ (j : ℤ) := by
    push_cast
    rw [div_one, zpow_natCast]
  have low : -1022 ≤ Int.log 2 (((a * 2 ^ j : ℕ) : ℚ) / (1 : ℕ)) := by
    rw [Nat.cast_one, div_one, Int.log_natCast]
    omega
  have high := log_le_of_bits (by positivity) value fits
  obtain ⟨x, result, absolute⟩ :=
    ofFraction?_exact false num_pos Nat.one_pos low (by omega) value fits
  refine ⟨x, result, ?_⟩
  rw [absolute, Nat.cast_one, div_one]

/-- A rounded quotient is the double of a fraction that is worth the exact one. -/
theorem div?_eq {x y : Binary64} (x_pos : 0 < x.absolute) (y_pos : 0 < y.absolute) :
    ∃ num den : ℕ, 0 < num ∧ 0 < den ∧ (num : ℚ) / den = x.absolute / y.absolute ∧
      x.div? y = ofFraction? (x.negative ^^ y.negative) num den := by
  have x_ne := significand_ne_zero x_pos
  have y_ne := significand_ne_zero y_pos
  have value := ratio_fraction x.significand (x.exponent - y.exponent)
  have den_pos := fraction_den_pos x.significand (x.exponent - y.exponent)
  unfold div?
  rw [if_neg y_ne]
  dsimp only
  generalize fraction x.significand (x.exponent - y.exponent) = f at value den_pos
  have num_pos : 0 < f.1 := by
    refine num_pos_of_ratio ?_
    rw [value]
    positivity
  refine ⟨f.1, f.2 * y.significand, num_pos,
    Nat.mul_pos den_pos (Nat.pos_iff_ne_zero.mpr y_ne), ?_, rfl⟩
  rw [Nat.cast_mul, ← div_div, ← ratio, value, absolute, absolute,
    zpow_sub₀ two_ne_zero]
  field_simp

end Binary64
end FieldExpr
