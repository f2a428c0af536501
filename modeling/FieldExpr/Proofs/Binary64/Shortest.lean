import FieldExpr.Proofs.Binary64.Nearest
import FieldExpr.Proofs.Decimal.Nearest
import Mathlib.Algebra.Order.Floor.Semifield

/-!
# The shortest digits are those that were written

A number reads back as the double that it was rounded to (`ReadsBack`,
`readsBack_of_ofFraction?`). Where the number has less than 52 bits of digits,
the numbers that read back lie closer together than the places of its last
digit, so no other number of as many places is among them, and the search for
the shortest digits ends at the number (`shortest_eq`).
-/

namespace FieldExpr.Binary64

/-- The numbers that read back as a double fill the interval around it. -/
structure ReadsBack (x : Binary64) (q : ℚ) : Prop where
  low : x.interval.low * 2 ^ (x.exponent - 2) ≤ q
  high : q ≤ x.interval.high * 2 ^ (x.exponent - 2)
  ends : q = x.interval.low * 2 ^ (x.exponent - 2) ∨
    q = x.interval.high * 2 ^ (x.exponent - 2) → x.interval.closed = true

variable {x : Binary64} {p q r : ℚ}

theorem quarter_pos (x : Binary64) : (0 : ℚ) < 2 ^ (x.exponent - 2) :=
  zpow_pos two_pos _

/-- The last bit has four quarters. -/
theorem last_bit (x : Binary64) :
    (2 : ℚ) ^ x.exponent = 4 * 2 ^ (x.exponent - 2) := by
  rw [zpow_sub₀ two_ne_zero]
  norm_num
  ring

/-- The interval begins two quarters below the value, or one where the value is
a power of two. -/
theorem low_cases (x : Binary64) : x.interval.low = 4 * x.significand - 2 ∨
    x.significand = 0x10000000000000 ∧ x.interval.low = 4 * x.significand - 1 := by
  show 4 * x.significand - (if x.significand = 0x10000000000000 ∧
      minExponent < x.exponent then 1 else 2) = _ ∨
    _ ∧ 4 * x.significand - (if x.significand = 0x10000000000000 ∧
      minExponent < x.exponent then 1 else 2) = _
  split
  · rename_i power
    exact .inr ⟨power.1, rfl⟩
  · exact .inl rfl

theorem high_eq (x : Binary64) : x.interval.high = 4 * x.significand + 2 :=
  rfl

theorem low_add_le_high (x : Binary64) : x.interval.high ≤ x.interval.low + 4 := by
  have low := low_cases x
  rw [high_eq]
  omega

theorem low_lt_high (x : Binary64) : x.interval.low < x.interval.high := by
  have low := low_cases x
  rw [high_eq]
  omega

theorem unit_den_pos (x : Binary64) : 0 < x.interval.unit.2 :=
  fraction_den_pos 1 (x.exponent - 2)

/-- The interval counts in quarters of the last bit. -/
theorem ratio_at (x : Binary64) (n : ℕ) :
    ratio (x.interval.at n) = n * 2 ^ (x.exponent - 2) := by
  have unit : ratio x.interval.unit = 2 ^ (x.exponent - 2) := by
    rw [← one_mul ((2 : ℚ) ^ _), ← Nat.cast_one, ← ratio_fraction]
    rfl
  rw [← unit]
  show ((n * x.interval.unit.1 : ℕ) : ℚ) / x.interval.unit.2 =
    n * (x.interval.unit.1 / x.interval.unit.2)
  rw [Nat.cast_mul, mul_div_assoc]

theorem ratio_at_value (x : Binary64) :
    ratio (x.interval.at x.interval.value) = x.absolute := by
  rw [ratio_at, absolute, last_bit]
  show ((4 * x.significand : ℕ) : ℚ) * _ = _
  push_cast
  ring

/-- The test of the interval is whether a fraction reads back. -/
theorem contains_iff (x : Binary64) {f : Nat × Nat} (den_pos : 0 < f.2) :
    x.interval.contains f = true ↔ x.ReadsBack (ratio f) := by
  have at_pos : ∀ n, 0 < (x.interval.at n).2 := fun _ => unit_den_pos x
  have less : (x.interval.low : ℚ) * 2 ^ (x.exponent - 2) <
      x.interval.high * 2 ^ (x.exponent - 2) := by
    have lt := low_lt_high x
    have pos := quarter_pos x
    gcongr
  unfold Interval.contains
  rw [compareFractions_eq (at_pos _) den_pos,
    compareFractions_eq den_pos (at_pos _), ratio_at, ratio_at]
  rcases lt_trichotomy (x.interval.low * 2 ^ (x.exponent - 2) : ℚ)
    (ratio f) with above | same | below
  · rw [compare_lt_iff_lt.mpr above]
    rcases lt_trichotomy (ratio f) (x.interval.high * 2 ^ (x.exponent - 2)) with
      inside | same | outside
    · rw [compare_lt_iff_lt.mpr inside]
      refine iff_of_true rfl ⟨above.le, inside.le, ?_⟩
      rintro (low | high)
      · exact absurd low above.ne'
      · exact absurd high inside.ne
    · rw [compare_eq_iff_eq.mpr same]
      exact ⟨fun closed => ⟨above.le, same.le, fun _ => closed⟩,
        fun reads => reads.ends (.inr same)⟩
    · rw [compare_gt_iff_gt.mpr outside]
      exact iff_of_false Bool.false_ne_true fun reads =>
        not_le_of_gt outside reads.high
  · rw [compare_eq_iff_eq.mpr same, compare_lt_iff_lt.mpr (same ▸ less)]
    exact ⟨fun closed => ⟨same.le, (same ▸ less).le, fun _ => closed⟩,
      fun reads => reads.ends (.inl same.symm)⟩
  · rw [compare_gt_iff_gt.mpr below]
    refine iff_of_false ?_ fun reads => not_le_of_gt below reads.low
    simp

namespace ReadsBack

/-- What lies between numbers that read back reads back. -/
theorem between (first : x.ReadsBack p) (last : x.ReadsBack r) (low : p ≤ q)
    (high : q ≤ r) : x.ReadsBack q where
  low := first.low.trans low
  high := high.trans last.high
  ends := by
    rintro (least | greatest)
    · exact first.ends (.inl (le_antisymm (low.trans least.le) first.low))
    · exact last.ends (.inr (le_antisymm last.high (greatest.ge.trans high)))

/-- Numbers that read back are at most a last bit apart. -/
theorem sub_le (first : x.ReadsBack p) (last : x.ReadsBack r) :
    r - p ≤ 2 ^ x.exponent := by
  have width : (x.interval.high : ℚ) ≤ x.interval.low + 4 := by
    exact_mod_cast low_add_le_high x
  have quarter := quarter_pos x
  have low := first.low
  have high := last.high
  rw [last_bit]
  nlinarith

end ReadsBack

/-- The value of a double whose bits are all in use reads back as it. -/
theorem readsBack_absolute (bits : 0x10000000000000 ≤ x.significand) :
    x.ReadsBack x.absolute := by
  have value : x.absolute = (4 * x.significand : ℕ) * 2 ^ (x.exponent - 2) := by
    rw [absolute, last_bit]
    push_cast
    ring
  have quarter := quarter_pos x
  have low : x.interval.low < 4 * x.significand := by
    have low := low_cases x
    omega
  have high : 4 * x.significand < x.interval.high := Nat.lt_add_of_pos_right two_pos
  have low : (x.interval.low : ℚ) * 2 ^ (x.exponent - 2) < x.absolute := by
    rw [value]
    gcongr
  have high : x.absolute < x.interval.high * 2 ^ (x.exponent - 2) := by
    rw [value]
    gcongr
  refine ⟨low.le, high.le, ?_⟩
  rintro (least | greatest)
  · exact absurd least low.ne'
  · exact absurd greatest high.ne

/-- A number of last bits reads back as its nearest whole number. -/
theorem readsBack_of_isNearest (nearest : IsNearest x.significand q)
    (low : 0x10000000000000 ≤ q) :
    x.ReadsBack (q * 2 ^ x.exponent) := by
  have quarter := quarter_pos x
  have value : q * 2 ^ x.exponent = 4 * q * 2 ^ (x.exponent - 2) := by
    rw [last_bit]
    ring
  have bits : 0x10000000000000 ≤ x.significand := nearest.le (by exact_mod_cast low)
  have near := abs_le.mp nearest.near
  have high : (x.interval.high : ℚ) = 4 * x.significand + 2 := by
    rw [high_eq]
    push_cast
    rfl
  -- Below a power of two the interval begins later, but the number is not less
  -- than the power.
  have least : (x.interval.low : ℚ) < 4 * q ∨
      (x.interval.low : ℚ) = 4 * x.significand - 2 := by
    rcases low_cases x with half | ⟨power, quarter⟩
    · right
      rw [half, Nat.cast_sub (by omega)]
      push_cast
      rfl
    · left
      have below : x.interval.low < 4 * 0x10000000000000 := by omega
      calc (x.interval.low : ℚ)
          < (4 * 0x10000000000000 : ℕ) := by exact_mod_cast below
        _ ≤ 4 * q := by
          push_cast
          linarith
  have even : |q - x.significand| = 1 / 2 → x.interval.closed = true :=
    fun tie => beq_iff_eq.mpr (nearest.even tie)
  rw [value]
  refine ⟨mul_le_mul_of_nonneg_right ?low quarter.le,
    mul_le_mul_of_nonneg_right ?high quarter.le, ?ends⟩
  case low =>
    rcases least with below | half
    · exact below.le
    · rw [half]
      linarith
  case high =>
    rw [high]
    linarith
  case ends =>
    rintro (first | last)
    · have same := mul_right_cancel₀ quarter.ne' first
      have half := least.resolve_left same.not_gt
      refine even ?_
      rw [abs_of_nonpos (by linarith)]
      linarith
    · have same := mul_right_cancel₀ quarter.ne' last
      rw [high] at same
      refine even ?_
      rw [abs_of_nonneg (by linarith)]
      linarith

/-- A power of two reads numbers back that are less than it by up to a quarter
of its last bit. -/
theorem readsBack_of_power (power : x.significand = 0x10000000000000)
    (low : 0x10000000000000 - 1 / 4 ≤ q) (high : q ≤ 0x10000000000000) :
    x.ReadsBack (q * 2 ^ x.exponent) := by
  have quarter := quarter_pos x
  have value : q * 2 ^ x.exponent = 4 * q * 2 ^ (x.exponent - 2) := by
    rw [last_bit]
    ring
  have least : (x.interval.low : ℚ) ≤ 4 * 0x10000000000000 - 1 := by
    have begins := low_cases x
    have below : x.interval.low + 1 ≤ 4 * 0x10000000000000 := by omega
    rw [le_sub_iff_add_le]
    exact_mod_cast below
  have closed : x.interval.closed = true := beq_iff_eq.mpr (by rw [power])
  rw [value]
  refine ⟨mul_le_mul_of_nonneg_right ?_ quarter.le,
    mul_le_mul_of_nonneg_right ?_ quarter.le, fun _ => closed⟩
  · linarith
  · rw [high_eq, power]
    norm_num
    linarith

/-- A number reads back as the double that it is rounded to. -/
theorem readsBack_of_ofFraction? {negative : Bool} {num den : Nat}
    (num_pos : 0 < num) (den_pos : 0 < den)
    (low : -1000 ≤ Int.log 2 ((num : ℚ) / den))
    (high : Int.log 2 ((num : ℚ) / den) ≤ 1000) :
    ∃ x, ofFraction? negative num den = some x ∧
    0x10000000000000 ≤ x.significand ∧ x.ReadsBack ((num : ℚ) / den) := by
  have pos : (0 : ℚ) < (num : ℚ) / den := by positivity
  obtain ⟨s, nearest, result⟩ :=
    ofFraction?_eq negative num_pos den_pos (by omega) (by omega)
  have from_power := Int.zpow_log_le_self (b := 2) (by decide) pos
  have to_power := Int.lt_zpow_succ_log_self (b := 2) (by decide) ((num : ℚ) / den)
  generalize Int.log 2 ((num : ℚ) / den) = first at *
  generalize (num : ℚ) / den = q at *
  have unit_pos : (0 : ℚ) < 2 ^ (first - 52) := zpow_pos two_pos _
  have bits_low : 0x10000000000000 ≤ q / 2 ^ (first - 52) := by
    rw [le_div_iff₀ unit_pos]
    calc (0x10000000000000 : ℚ) * 2 ^ (first - 52) = 2 ^ first := by
          rw [zpow_sub₀ two_ne_zero]
          norm_num
          ring
      _ ≤ q := from_power
  have bits_high : q / 2 ^ (first - 52) < 0x20000000000000 := by
    rw [div_lt_iff₀ unit_pos]
    calc q < 2 ^ (first + 1) := to_power
      _ = 0x20000000000000 * 2 ^ (first - 52) := by
          rw [zpow_sub₀ two_ne_zero, zpow_add₀ two_ne_zero]
          norm_num
          ring
  have value : q / 2 ^ (first - 52) * 2 ^ (first - 52) = q :=
    div_mul_cancel₀ q unit_pos.ne'
  generalize q / 2 ^ (first - 52) = bits at *
  by_cases carry : s = 0x20000000000000
  · -- All bits are carried, and the number is just below the power of two.
    rw [if_pos carry] at result
    refine ⟨_, result, Nat.le_refl _, ?_⟩
    have near := abs_le.mp nearest.near
    rw [carry] at near
    push_cast at near
    have double : q = bits / 2 * 2 ^ (first - 51) := by
      have next : first - 51 = first - 52 + 1 := by ring
      rw [← value, next, zpow_add₀ two_ne_zero, zpow_one]
      ring
    rw [double]
    exact readsBack_of_power (x := ⟨negative, 0x10000000000000, first - 51⟩) rfl
      (by linarith) (by linarith)
  · rw [if_neg carry] at result
    refine ⟨_, result, nearest.le (by exact_mod_cast bits_low), ?_⟩
    rw [← value]
    exact readsBack_of_isNearest (x := ⟨negative, s, first - 52⟩) nearest bits_low

/-! ## Grids -/

section

variable {m n : ℕ} {g h : ℤ}

/-- A number of few digits that reads back stands on a grid that is wider than
the interval. -/
theorem last_bit_lt (bits : 0x10000000000000 ≤ x.significand)
    (reads : x.ReadsBack (m * 10 ^ g)) (small : m < 0x10000000000000) :
    (2 : ℚ) ^ x.exponent < 10 ^ g := by
  by_contra wide
  have wide : (10 : ℚ) ^ g ≤ 4 * 2 ^ (x.exponent - 2) :=
    last_bit x ▸ le_of_not_gt wide
  have begins := low_cases x
  have low : (x.interval.low : ℚ) * 2 ^ (x.exponent - 2) ≤
      (4 * m : ℕ) * 2 ^ (x.exponent - 2) :=
    calc (x.interval.low : ℚ) * 2 ^ (x.exponent - 2) ≤ m * 10 ^ g := reads.low
      _ ≤ m * (4 * 2 ^ (x.exponent - 2)) := by gcongr
      _ = (4 * m : ℕ) * 2 ^ (x.exponent - 2) := by
        push_cast
        ring
  have low : (x.interval.low : ℚ) ≤ (4 * m : ℕ) :=
    le_of_mul_le_mul_right low (quarter_pos x)
  have low : x.interval.low ≤ 4 * m := by exact_mod_cast low
  omega

/-- On its own grid and on coarser ones, a number of few digits is the only one
that reads back. -/
theorem eq_of_readsBack (bits : 0x10000000000000 ≤ x.significand)
    (reads : x.ReadsBack (m * 10 ^ g)) (small : m < 0x10000000000000)
    (others : x.ReadsBack (n * 10 ^ h)) (coarser : g ≤ h) :
    (n : ℚ) * 10 ^ h = m * 10 ^ g := by
  have bit := last_bit_lt bits reads small
  obtain ⟨j, rfl⟩ : ∃ j : ℕ, h = g + j := ⟨(h - g).toNat, by omega⟩
  have grid : (n : ℚ) * 10 ^ (g + j) = (n * 10 ^ j : ℕ) * 10 ^ g := by
    rw [zpow_add₀ (by norm_num), zpow_natCast]
    push_cast
    ring
  rw [grid] at others ⊢
  have up := reads.sub_le others
  have down := others.sub_le reads
  have unit_pos : (0 : ℚ) < 10 ^ g := zpow_pos (by norm_num) g
  generalize n * 10 ^ j = k at *
  have low : (k : ℚ) < m + 1 := by
    by_contra far
    have far : (m + 1) * (10 : ℚ) ^ g ≤ k * 10 ^ g :=
      mul_le_mul_of_nonneg_right (le_of_not_gt far) unit_pos.le
    linarith
  have high : (m : ℚ) < k + 1 := by
    by_contra far
    have far : (k + 1) * (10 : ℚ) ^ g ≤ m * 10 ^ g :=
      mul_le_mul_of_nonneg_right (le_of_not_gt far) unit_pos.le
    linarith
  have low : k < m + 1 := by exact_mod_cast low
  have high : m < k + 1 := by exact_mod_cast high
  have same : k = m := by omega
  rw [same]

/-- On a grid the two neighbours of the value are tried. -/
theorem onGrid_eq (x : Binary64) (g : ℤ) : ∃ a b : ℕ,
    (a = ⌊x.absolute / 10 ^ g⌋₊ ∧ b = ⌊x.absolute / 10 ^ g⌋₊ + 1 ∨
      a = ⌊x.absolute / 10 ^ g⌋₊ + 1 ∧ b = ⌊x.absolute / 10 ^ g⌋₊) ∧
    x.interval.onGrid g = if x.interval.contains (decimalFraction a g) then some a
      else if x.interval.contains (decimalFraction b g) then some b else none := by
  have value := ratio_at_value x
  have grid : ratio (decimalFraction 1 g) = 10 ^ g := by
    rw [ratio_decimalFraction, Nat.cast_one, one_mul]
  unfold Interval.onGrid
  dsimp only
  generalize x.interval.at x.interval.value = f at value
  generalize decimalFraction 1 g = u at grid
  have floor : f.1 * u.2 / (f.2 * u.1) = ⌊x.absolute / 10 ^ g⌋₊ := by
    rw [← Nat.floor_div_eq_div (K := ℚ), ← value, ← grid, ratio, ratio,
      div_div_div_eq]
    push_cast
    rfl
  rw [floor]
  have least := div_le_roundHalfEven (f.1 * u.2) (f.2 * u.1)
  have most := roundHalfEven_le_succ (f.1 * u.2) (f.2 * u.1)
  rw [floor] at least most
  generalize roundHalfEven (f.1 * u.2) (f.2 * u.1) = nearest at *
  by_cases down : nearest = ⌊x.absolute / 10 ^ g⌋₊
  · exact ⟨nearest, _, .inl ⟨down, rfl⟩, by rw [if_pos down]⟩
  · exact ⟨nearest, _, .inr ⟨by omega, rfl⟩, by rw [if_neg down]⟩

/-- What is found on a grid reads back. -/
theorem readsBack_of_onGrid (found : x.interval.onGrid g = some n) :
    x.ReadsBack (n * 10 ^ g) := by
  have reads : ∀ n, x.interval.contains (decimalFraction n g) = true →
      x.ReadsBack (n * 10 ^ g) := by
    intro n contains
    rw [← ratio_decimalFraction]
    exact (contains_iff x (decimalFraction_den_pos n g)).mp contains
  obtain ⟨a, b, _, result⟩ := onGrid_eq x g
  rw [result] at found
  split at found
  · rename_i contains
    cases found
    exact reads _ contains
  · split at found
    · rename_i contains
      cases found
      exact reads _ contains
    · cases found

/-- Where any number of a grid reads back, one is found. -/
theorem onGrid_of_readsBack (bits : 0x10000000000000 ≤ x.significand)
    (reads : x.ReadsBack (n * 10 ^ g)) :
    ∃ k, x.interval.onGrid g = some k := by
  have unit_pos : (0 : ℚ) < 10 ^ g := zpow_pos (by norm_num) g
  have value_nonneg : 0 ≤ x.absolute / 10 ^ g := by
    unfold absolute
    positivity
  have contained : ∀ k : ℕ, x.ReadsBack (k * 10 ^ g) →
      x.interval.contains (decimalFraction k g) = true := by
    intro k reads
    rw [contains_iff x (decimalFraction_den_pos k g), ratio_decimalFraction]
    exact reads
  have below : (⌊x.absolute / 10 ^ g⌋₊ : ℚ) * 10 ^ g ≤ x.absolute :=
    (le_div_iff₀ unit_pos).mp (Nat.floor_le value_nonneg)
  have above : x.absolute ≤ (⌊x.absolute / 10 ^ g⌋₊ + 1 : ℕ) * 10 ^ g := by
    rw [← div_le_iff₀ unit_pos]
    push_cast
    exact (Nat.lt_floor_add_one _).le
  -- The neighbour on the side of a number that reads back is between it
  -- and the value.
  have neighbour :
      x.interval.contains (decimalFraction ⌊x.absolute / 10 ^ g⌋₊ g) = true ∨
      x.interval.contains (decimalFraction (⌊x.absolute / 10 ^ g⌋₊ + 1) g) =
        true := by
    rcases Nat.lt_or_ge ⌊x.absolute / 10 ^ g⌋₊ n with less | greater
    · have further : ((⌊x.absolute / 10 ^ g⌋₊ + 1 : ℕ) : ℚ) * 10 ^ g ≤
          n * 10 ^ g := by
        have less : ((⌊x.absolute / 10 ^ g⌋₊ + 1 : ℕ) : ℚ) ≤ n := by
          exact_mod_cast less
        gcongr
      exact .inr (contained _
        ((readsBack_absolute bits).between reads above further))
    · have further : (n : ℚ) * 10 ^ g ≤ ⌊x.absolute / 10 ^ g⌋₊ * 10 ^ g := by gcongr
      exact .inl (contained _
        (reads.between (readsBack_absolute bits) further below))
  obtain ⟨a, b, neighbours, result⟩ := onGrid_eq x g
  rw [result]
  have tried : ∀ a b : ℕ, (x.interval.contains (decimalFraction a g) = true ∨
      x.interval.contains (decimalFraction b g) = true) →
      ∃ k, (if x.interval.contains (decimalFraction a g) then some a
      else if x.interval.contains (decimalFraction b g) then some b else none) =
        some k := by
    intro a b either
    by_cases first : x.interval.contains (decimalFraction a g) = true
    · exact ⟨a, if_pos first⟩
    · exact ⟨b, by rw [if_neg first, if_pos (either.resolve_left first)]⟩
  rcases neighbours with ⟨rfl, rfl⟩ | ⟨rfl, rfl⟩
  · exact tried _ _ neighbour
  · exact tried _ _ neighbour.symm

/-! ## The search -/

/-- Where the number stands on some grid that is tried, and no number on a
coarser grid but itself reads back, the search ends at it. -/
theorem search_eq (bits : 0x10000000000000 ≤ x.significand)
    (reads : x.ReadsBack (m * 10 ^ g)) (small : m < 0x10000000000000) {first : ℤ}
    {count left : ℕ} (start : g ≤ first - (count - left))
    (stop : first - (count - 1) ≤ g) :
    ∃ n h, x.interval.search first count left = some (n, h) ∧
    (n : ℚ) * 10 ^ h = m * 10 ^ g ∧ g ≤ h := by
  induction left with
  | zero => omega
  | succ left ih =>
    unfold Interval.search
    dsimp only
    generalize exponent : first - ((count : ℤ) - left - 1) = h
    cases found : x.interval.onGrid h with
    | some n =>
      exact ⟨n, h, rfl,
        eq_of_readsBack bits reads small (readsBack_of_onGrid found)
        (by omega), by omega⟩
    | none =>
      have coarser : h ≠ g := by
        rintro rfl
        obtain ⟨k, some⟩ := onGrid_of_readsBack bits reads
        rw [found] at some
        cases some
      exact ih (by omega)

theorem natural_bounds (pos : 0 < n) :
    10 ^ ((Nat.toDigits 10 n).length - 1) ≤ n ∧
    n < 10 ^ ((Nat.toDigits 10 n).length - 1 + 1) := by
  have length : ∀ k, 0 < k → ((Nat.toDigits 10 n).length ≤ k ↔ n < 10 ^ k) :=
    fun k => Nat.length_toDigits_le_iff (by decide)
  generalize (Nat.toDigits 10 n).length = digits at length
  refine ⟨?_, (length _ (Nat.succ_pos _)).mp (by omega)⟩
  by_cases single : digits - 1 = 0
  · rw [single]
    exact pos
  · have fewer := (length _ (Nat.pos_iff_ne_zero.mpr single)).not
    exact Nat.not_lt.mp (fewer.mp (by omega))

theorem firstExponent_eq {f : ℕ × ℕ} (num_pos : 0 < f.1) (den_pos : 0 < f.2) :
    firstExponent f = Int.log 10 (ratio f) := by
  have digits : ∀ n, 0 < n →
      ((Nat.toDigits 10 n).length : ℤ) =
      ((Nat.toDigits 10 n).length - 1 : ℕ) + 1 := by
    intro n pos
    have some_digit :=
      List.length_pos_iff.mpr (Nat.toDigits_ne_nil (n := n) (b := 10))
    omega
  have guess : ((Nat.toDigits 10 f.1).length : ℤ) - (Nat.toDigits 10 f.2).length =
      ((Nat.toDigits 10 f.1).length - 1 : ℕ) -
        ((Nat.toDigits 10 f.2).length - 1 : ℕ) := by
    rw [digits _ num_pos, digits _ den_pos]
    ring
  unfold ratio
  rw [log_ratio (by decide) (natural_bounds num_pos) (natural_bounds den_pos)]
  unfold firstExponent
  dsimp only
  rw [guess]
  generalize (((Nat.toDigits 10 f.1).length - 1 : ℕ) : ℤ) -
    ((Nat.toDigits 10 f.2).length - 1 : ℕ) = e
  rw [compareFractions_eq (decimalFraction_den_pos 1 e) den_pos,
    ratio_decimalFraction, Nat.cast_one, one_mul]
  rw [Nat.cast_ofNat, ratio]
  by_cases reached : (10 : ℚ) ^ e ≤ f.1 / f.2
  · rw [if_pos reached, if_neg]
    rw [beq_iff_eq, compare_gt_iff_gt]
    exact not_lt_of_ge reached
  · rw [if_neg reached, if_pos]
    rw [beq_iff_eq, compare_gt_iff_gt]
    exact lt_of_not_ge reached

theorem dropDigitZeros_eq {z limit : ℕ} (last : m % 10 ≠ 0) (le : z ≤ limit) :
    dropDigitZeros limit (m * tenPow z) = (m, z) := by
  induction z generalizing limit with
  | zero =>
    rw [show m * tenPow 0 = m from Nat.mul_one m]
    cases limit with
    | zero => rfl
    | succ limit =>
      unfold dropDigitZeros
      rw [if_neg last]
  | succ z ih =>
    obtain ⟨limit, rfl⟩ : ∃ k, limit = k + 1 := ⟨limit - 1, by omega⟩
    rw [tenPow_succ, ← Nat.mul_assoc]
    unfold dropDigitZeros
    rw [Nat.mul_mod_left, if_pos rfl, Nat.mul_div_left _ (by decide), ih (by omega)]

theorem firstExponent_at_value (bits : 0x10000000000000 ≤ x.significand) :
    firstExponent (x.interval.at x.interval.value) = Int.log 10 x.absolute := by
  have value_pos : (0 : ℚ) < ratio (x.interval.at x.interval.value) := by
    rw [ratio_at_value, absolute]
    have bits : (0 : ℚ) < x.significand := by
      exact_mod_cast Nat.lt_of_lt_of_le (by norm_num) bits
    positivity
  rw [firstExponent_eq (num_pos_of_ratio value_pos) (unit_den_pos x),
    ratio_at_value]

/-- A number that reads back is less than twice the value, and more than half of
it. -/
theorem bounds_of_readsBack (bits : 0x10000000000000 ≤ x.significand)
    (reads : x.ReadsBack q) :
    x.absolute < 2 * q ∧ q < 2 * x.absolute := by
  have many : (0x10000000000000 : ℚ) ≤ x.significand := by exact_mod_cast bits
  have bit_pos : (0 : ℚ) < 2 ^ x.exponent := zpow_pos two_pos _
  have wide : 0x10000000000000 * (2 : ℚ) ^ x.exponent ≤ x.absolute :=
    mul_le_mul_of_nonneg_right many bit_pos.le
  have up := reads.sub_le (readsBack_absolute bits)
  have down := (readsBack_absolute bits).sub_le reads
  constructor <;> linarith

/-- A number of few digits that reads back stands on one of the seventeen grids
that are tried, with few digits. -/
theorem exists_grid (bits : 0x10000000000000 ≤ x.significand)
    (reads : x.ReadsBack (m * 10 ^ g)) (small : m < 0x10000000000000)
    (pos : 0 < m) :
    ∃ (k : ℕ) (h : ℤ), (k : ℚ) * 10 ^ h = m * 10 ^ g ∧ k < 0x10000000000000 ∧
      h ≤ Int.log 10 x.absolute ∧
      Int.log 10 x.absolute - 16 ≤ h ∧ h ≤ g ∧ g ≤ h + 17 := by
  obtain ⟨below, above⟩ := bounds_of_readsBack bits reads
  have m_pos : (0 : ℚ) < m := by exact_mod_cast pos
  have ten_pos : ∀ e : ℤ, (0 : ℚ) < 10 ^ e := zpow_pos (by norm_num)
  have value_pos : 0 < x.absolute := by
    have unit := ten_pos g
    have number : 0 < (m : ℚ) * 10 ^ g := by positivity
    linarith
  have from_power := Int.zpow_log_le_self (b := 10) (by decide) value_pos
  have to_power := Int.lt_zpow_succ_log_self (b := 10) (by decide) x.absolute
  rw [Nat.cast_ofNat] at from_power to_power
  generalize Int.log 10 x.absolute = first at *
  rcases le_or_gt g first with fine | coarse
  · -- The digits of the number reach from its first place to its own grid.
    refine ⟨m, g, rfl, small, fine, ?_, le_refl g, by omega⟩
    have digits : (m : ℚ) < 0x10000000000000 := by exact_mod_cast small
    have power : (10 : ℚ) ^ first < 10 ^ (g + 16) :=
      calc (10 : ℚ) ^ first ≤ x.absolute := from_power
        _ < 2 * (m * 10 ^ g) := below
        _ < 2 * (0x10000000000000 * 10 ^ g) := by
          have unit := ten_pos g
          gcongr
        _ < 10 ^ (g + 16) := by
          rw [zpow_add₀ (by norm_num)]
          have unit := ten_pos g
          norm_num
          linarith
    have exponents :=
      (zpow_lt_zpow_iff_right₀ (by norm_num : (1 : ℚ) < 10)).mp power
    omega
  · -- The number is just above a power of ten and the double just below it.
    obtain ⟨j, rfl⟩ : ∃ j : ℕ, g = first + j := ⟨(g - first).toNat, by omega⟩
    have unit := ten_pos first
    have number : (m : ℚ) * 10 ^ (first + j : ℤ) =
        (m * 10 ^ j : ℕ) * 10 ^ first := by
      rw [zpow_add₀ (by norm_num), zpow_natCast]
      push_cast
      ring
    have few : ((m * 10 ^ j : ℕ) : ℚ) * 10 ^ first < (20 : ℕ) * 10 ^ first :=
      calc ((m * 10 ^ j : ℕ) : ℚ) * 10 ^ first
          = m * 10 ^ (first + j : ℤ) := number.symm
        _ < 2 * x.absolute := above
        _ < 2 * 10 ^ (first + 1) := by gcongr
        _ = (20 : ℕ) * 10 ^ first := by
          rw [zpow_add₀ (by norm_num)]
          norm_num
          ring
    have few : m * 10 ^ j < 20 := by
      exact_mod_cast lt_of_mul_lt_mul_right few unit.le
    have shift : j < 2 := by
      by_contra far
      have hundred : 10 ^ 2 ≤ 10 ^ j :=
        Nat.pow_le_pow_right (by decide) (Nat.not_lt.mp far)
      have product : 10 ^ j ≤ m * 10 ^ j := Nat.le_mul_of_pos_left _ pos
      omega
    exact ⟨m * 10 ^ j, first, number.symm, by omega,
      le_refl first, by omega, by omega, by omega⟩

/-- A number whose last digit is not zero has the least grid among its spellings. -/
theorem exists_zeros (last : m % 10 ≠ 0) (same : (n : ℚ) * 10 ^ h = m * 10 ^ g) :
    ∃ z : ℕ, g = h + z ∧ n = m * tenPow z := by
  have ten_ne : (10 : ℚ) ≠ 0 := by norm_num
  rcases le_or_gt h g with finer | coarser
  · obtain ⟨z, rfl⟩ : ∃ z : ℕ, g = h + z := ⟨(g - h).toNat, by omega⟩
    rw [zpow_add₀ ten_ne, zpow_natCast,
      mul_comm ((10 : ℚ) ^ h), ← mul_assoc, ← cast_tenPow] at same
    refine ⟨z, rfl, ?_⟩
    exact_mod_cast mul_right_cancel₀ (zpow_ne_zero h ten_ne) same
  · obtain ⟨j, rfl⟩ : ∃ j : ℕ, h = g + (j + 1 : ℕ) := ⟨(h - g - 1).toNat, by omega⟩
    rw [zpow_add₀ ten_ne, zpow_natCast, mul_comm ((10 : ℚ) ^ g), ← mul_assoc]
      at same
    have multiple : n * 10 ^ (j + 1) = m := by
      exact_mod_cast mul_right_cancel₀ (zpow_ne_zero g ten_ne) same
    rw [← multiple, pow_succ, ← mul_assoc, Nat.mul_mod_left] at last
    exact absurd rfl last

/-- A number of few digits that reads back as a double is the shortest that does. -/
theorem shortest_eq (bits : 0x10000000000000 ≤ x.significand)
    (reads : x.ReadsBack (m * 10 ^ g)) (small : m < 0x10000000000000)
    (last : m % 10 ≠ 0) : x.shortest = ⟨m, g + (Nat.toDigits 10 m).length - 1⟩ := by
  have pos : 0 < m := Nat.pos_of_ne_zero fun zero => last (by rw [zero])
  obtain ⟨k, grid, spelled, few, start, stop, finer, near⟩ :=
    exists_grid bits reads small pos
  have found : ∃ n h, x.interval.search (Int.log 10 x.absolute) 17 17 =
      some (n, h) ∧
      (n : ℚ) * 10 ^ h = k * 10 ^ grid ∧ grid ≤ h :=
    search_eq bits (spelled ▸ reads) few (by push_cast; omega) (by push_cast; omega)
  obtain ⟨n, h, found, same, coarser⟩ := found
  obtain ⟨z, exponent, zeros⟩ := exists_zeros last (same.trans spelled)
  have dropped : dropDigitZeros 17 n = (m, z) := by
    rw [zeros]
    exact dropDigitZeros_eq last (by omega)
  unfold shortest
  dsimp only
  rw [firstExponent_at_value bits, found, Option.getD_some]
  dsimp only
  rw [dropped, exponent]

end

end FieldExpr.Binary64
