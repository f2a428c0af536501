import FieldExpr.Proofs.Binary64.Nearest
import FieldExpr.Proofs.Decimal.Nearest

/-!
# Rounding a quotient twice

A quotient is rounded to the places at which its mantissa fits, and then to the
places that were asked for. The second rounding does not see what the first one
dropped, and neither sees that the largest mantissa with one place more may be
nearer. These are the only two ways in which a decimal can be nearer to the
exact ratio than the result (`exists_closer_iff`).
-/

namespace FieldExpr.Decimal

open Binary64 (IsNearest isNearest_roundHalfEven)

/-! ## Distances on a grid -/

section

variable {a c t w : ℤ} {x y rest : ℚ}

/-- Distances compare as they do in a smaller unit. -/
theorem abs_scaled_lt_iff {u a b : ℚ} (pos : 0 < u) :
    |u * a - u * y| < |u * b - u * y| ↔ |a - y| < |b - y| := by
  rw [← mul_sub, ← mul_sub, abs_mul, abs_mul, abs_of_pos pos,
    mul_lt_mul_iff_right₀ pos]

/-- A whole number that is not past the middle of a grid of `10 * w`, and less
than one more: a point of the grid can only be nearer to both together than zero
where the number is the middle and the rest points away from zero. -/
theorem halfway_of_closer (w_pos : 0 < w) (small : |rest| ≤ 1 / 2)
    (rounded : |a| ≤ 5 * w) (closer : |10 * w * t - (a + rest)| < |a + rest|) :
    |a| = 5 * w ∧ 0 < a * rest := by
  wlog nonneg : 0 ≤ a + rest generalizing a t rest
  · have distance : |10 * w * (-t : ℤ) - ((-a : ℤ) + -rest)| =
        |10 * w * t - (a + rest)| := by
      rw [← abs_neg]
      congr 1
      push_cast
      ring
    have same : |((-a : ℤ) : ℚ) + -rest| = |a + rest| := by
      rw [← abs_neg]
      congr 1
      push_cast
      ring
    have mirrored : |-a| = 5 * w ∧ 0 < ((-a : ℤ) : ℚ) * -rest :=
      this (t := -t) (by rwa [abs_neg]) (by rwa [abs_neg])
        (by rwa [distance, same]) (by push_cast; linarith)
    simpa using mirrored
  obtain ⟨_, small⟩ := abs_le.mp small
  obtain ⟨_, rounded⟩ := abs_le.mp rounded
  have w_pos' : (0 : ℚ) < w := by exact_mod_cast w_pos
  rw [abs_of_nonneg nonneg] at closer
  obtain ⟨near, far⟩ := abs_lt.mp closer
  have next : 1 ≤ t := by
    have pos : (w : ℚ) * 0 < w * t := by linarith
    have : 0 < t := by exact_mod_cast lt_of_mul_lt_mul_left pos w_pos'.le
    omega
  have next : (w : ℚ) * 1 ≤ w * t :=
    mul_le_mul_of_nonneg_left (by exact_mod_cast next) w_pos'.le
  have reached : 5 * w < a + 1 := by
    have : (5 * w : ℚ) < a + 1 := by linarith
    exact_mod_cast this
  have middle : a = 5 * w := by omega
  have middle' : (a : ℚ) = 5 * w := by exact_mod_cast middle
  refine ⟨by rw [middle, abs_of_pos (by omega)], ?_⟩
  rw [middle']
  exact mul_pos (by linarith) (by linarith)

/-- Where the rest points away from zero, the point of the grid behind the
middle is nearer. -/
theorem closer_of_beyond (beyond : 0 < a * rest) :
    |2 * a - (a + rest)| < |a + rest| := by
  rw [← sq_lt_sq]
  linarith [show (2 * a - (a + rest)) ^ 2 = (a + rest) ^ 2 - 4 * (a * rest) by ring]

/-- A number that the largest mantissa does not reach, though it is nearer than
the nearest multiple of ten. -/
theorem lt_of_closer (low : (capacity : ℚ) - 1 / 2 ≤ x)
    (near : |10 * c - x| ≤ 5) (small : y ≤ capacity - 1)
    (closer : |y - x| < |10 * c - x|) : x < capacity + 3 / 2 := by
  obtain ⟨near_low, near_high⟩ := abs_le.mp near
  have value : (capacity : ℚ) = 79228162514264337593543950336 := by
    norm_num [capacity]
  have below : x - y ≤ |y - x| := by
    rw [abs_sub_comm]
    exact le_abs_self _
  -- The capacity ends in a six, so the multiple of ten that is nearest to the
  -- number is four more.
  have multiple : c = 7922816251426433759354395034 := by
    have least : 7922816251426433759354395033 < c := by
      have : (7922816251426433759354395033 : ℚ) < c := by linarith
      exact_mod_cast this
    have most : c < 7922816251426433759354395035 := by
      have : (c : ℚ) < 7922816251426433759354395035 := by linarith
      exact_mod_cast this
    omega
  have value' : (c : ℚ) = 7922816251426433759354395034 := by exact_mod_cast multiple
  rw [abs_of_nonneg (by linarith : 0 ≤ 10 * (c : ℚ) - x)] at closer
  linarith

theorem closer_of_lt (c : ℤ) (low : (capacity : ℚ) - 1 / 2 ≤ x)
    (high : x < capacity + 3 / 2) :
    |(capacity - 1 : ℚ) - x| < |10 * c - x| := by
  have value : (capacity : ℚ) = 79228162514264337593543950336 := by
    norm_num [capacity]
  have small : |(capacity - 1 : ℚ) - x| < 5 / 2 :=
    abs_lt.mpr ⟨by linarith, by linarith⟩
  refine lt_of_lt_of_le small ?_
  rcases lt_or_ge c 7922816251426433759354395034 with less | more
  · have less : (c : ℚ) ≤ 7922816251426433759354395033 := by
      exact_mod_cast Int.le_of_lt_add_one less
    exact le_abs.mpr (.inr (by linarith))
  · have more : (7922816251426433759354395034 : ℚ) ≤ c := by exact_mod_cast more
    exact le_abs.mpr (.inl (by linarith))

/-- A whole number within one half is nearest. -/
theorem abs_le_of_near {j : ℤ} (near : |x - c| ≤ 1 / 2) : |c - x| ≤ |j - x| := by
  rw [abs_sub_comm] at near
  obtain ⟨low, high⟩ := abs_le.mp near
  rcases lt_trichotomy c j with less | rfl | more
  · have next : (c : ℚ) + 1 ≤ j := by exact_mod_cast less
    exact le_trans near (le_abs.mpr (.inl (by linarith)))
  · exact le_refl _
  · have previous : (j : ℚ) + 1 ≤ c := by exact_mod_cast more
    exact le_trans near (le_abs.mpr (.inr (by linarith)))

end

/-! ## Where a ratio settles -/

section

variable {num den m : Nat}

/-- The half below an even number rounds up to it. -/
theorem le_iff_of_even {bound n : Nat} {x : ℚ} (even : bound % 2 = 0)
    (nearest : IsNearest n x) :
    bound ≤ n ↔ (bound : ℚ) - 1 / 2 ≤ x := by
  obtain ⟨low, high⟩ := abs_le.mp nearest.near
  constructor
  · intro large
    have large : (bound : ℚ) ≤ n := by exact_mod_cast large
    linarith
  · intro large
    have least : (bound : ℚ) ≤ n + 1 := by linarith
    have least : bound ≤ n + 1 := by exact_mod_cast least
    by_contra small
    -- One less than the bound is odd, so it is not what a half rounds to.
    have last : n + 1 = bound := by omega
    have last' : (n + 1 : ℚ) = bound := by exact_mod_cast last
    have tie := nearest.even (by rw [abs_of_nonneg (by linarith)]; linarith)
    omega

theorem capacity_le_roundHalfEven_iff (num : Nat) (pos : 0 < den) :
    capacity ≤ roundHalfEven num den ↔ (capacity : ℚ) - 1 / 2 ≤ num / den :=
  le_iff_of_even (by decide) (isNearest_roundHalfEven num pos)

/-- The mantissa that a ratio rounds to fits with these places, and with one
place more it does not. -/
structure SettlesAt (num den places : Nat) : Prop where
  le : places ≤ maxScale
  fits : roundHalfEven (num * tenPow places) den < capacity
  next : places < maxScale →
    capacity ≤ roundHalfEven (num * tenPow (places + 1)) den

theorem exists_settlesAt (found : nearest num den = some m) :
    ∃ places, SettlesAt num den places ∧
      m = roundHalfEven (num * tenPow places) den * tenPow (maxScale - places) := by
  have down : ∀ places,
      (places < maxScale →
        capacity ≤ roundHalfEven (num * tenPow (places + 1)) den) →
      places ≤ maxScale → nearestFrom num den places = some m →
      ∃ places, SettlesAt num den places ∧
        m = roundHalfEven (num * tenPow places) den *
          tenPow (maxScale - places) := by
    intro places
    induction places with
    | zero =>
      intro next le found
      by_cases fits : roundHalfEven (num * tenPow 0) den < capacity
      · rw [nearestFrom_eq_some fits] at found
        exact ⟨0, ⟨le, fits, next⟩, (Option.some.inj found).symm⟩
      · have none : nearestFrom num den 0 = none :=
          nearestAt_eq_none (Nat.not_lt.mp fits)
        rw [none] at found
        cases found
    | succ places ih =>
      intro next le found
      by_cases fits : roundHalfEven (num * tenPow (places + 1)) den < capacity
      · rw [nearestFrom_eq_some fits] at found
        exact ⟨places + 1, ⟨le, fits, next⟩, (Option.some.inj found).symm⟩
      · rw [nearestFrom_succ (Nat.not_lt.mp fits)] at found
        exact ih (fun _ => Nat.not_lt.mp fits) (by omega) found
  exact down maxScale (fun less => absurd less (Nat.lt_irrefl _))
    (Nat.le_refl _) found

/-! ## The two ways of being further away -/

/-- Units rounded half to even to these places. -/
def atPlaces (places units : Nat) : Nat :=
  roundHalfEven units (tenPow (maxScale - places)) * tenPow (maxScale - places)

/-- A number of units that a decimal with at most these places can have,
its sign apart. -/
def IsShown (places n : Nat) : Prop :=
  ∃ mantissa scale, mantissa < capacity ∧ scale ≤ maxScale ∧ scale ≤ places ∧
    n = mantissa * tenPow (maxScale - scale)

/-- The ratio in units, as a multiple of the ratio with fewer places. -/
theorem ratio_units (num den : Nat) {scale : Nat} (le : scale ≤ maxScale) :
    (num : ℚ) / den * tenPow maxScale =
      tenPow (maxScale - scale) * (((num * tenPow scale : Nat) : ℚ) / den) := by
  have exponent : maxScale = maxScale - scale + scale :=
    (Nat.sub_add_cancel le).symm
  rw [exponent, tenPow_add, Nat.add_sub_cancel]
  push_cast
  ring

theorem ratio_digits (num den scale : Nat) :
    (num / den : ℚ) * 10 ^ scale = ((num * tenPow scale : Nat) : ℚ) / den := by
  rw [← cast_tenPow]
  push_cast
  ring

/-- Behind a middle lies a point of the grid that fits. -/
theorem exists_closer_of_middle {c k w : Nat} {x : ℚ} (w_pos : 0 < w)
    (fits : c < capacity) (middle : |(c : ℤ) - 10 * w * k| = 5 * w)
    (beyond : 0 < (c - 10 * w * k : ℚ) * (x - c)) :
    ∃ j < capacity, |(10 * w * j : ℚ) - x| < |(10 * w * k : ℚ) - x| := by
  have behind {a : ℤ} {j : Nat} (same : a = c - 10 * w * k)
      (next : (10 * w * j : ℤ) = c + a) :
      |(10 * w * j : ℚ) - x| < |(10 * w * k : ℚ) - x| := by
    have same' : (a : ℚ) = c - 10 * w * k := by exact_mod_cast same
    have next' : (10 * w * j : ℚ) = c + a := by exact_mod_cast next
    have closer : |2 * (a : ℚ) - (a + (x - c))| < |a + (x - c)| :=
      closer_of_beyond (by rwa [same'])
    rw [abs_sub_comm (10 * w * k : ℚ), next']
    convert closer using 2
    · ring
    · rw [same']
      ring
  rcases (abs_eq (by omega)).mp middle with up | down
  · refine ⟨k + 1, ?_, behind up.symm ?_⟩
    · have least : (k : ℤ) ≤ w * k := by
        exact_mod_cast Nat.le_mul_of_pos_left k w_pos
      rw [mul_assoc] at up
      omega
    · push_cast
      linarith
  · obtain ⟨j, rfl⟩ : ∃ j, k = j + 1 := by
      refine Nat.exists_eq_add_one.mpr (Nat.pos_of_ne_zero ?_)
      rintro rfl
      rw [Nat.cast_zero, mul_zero] at down
      omega
    refine ⟨j, ?_, behind down.symm ?_⟩
    · have least : (j : ℤ) ≤ w * j := by
        exact_mod_cast Nat.le_mul_of_pos_left j w_pos
      rw [Nat.cast_add, Nat.cast_one, mul_assoc, mul_add] at down
      omega
    · push_cast at down
      linarith

/-- A point of the grid is only nearer than the one that the whole number was
rounded to if that number is a middle. -/
theorem middle_of_closer {c j k w : Nat} {x : ℚ} (w_pos : 0 < w)
    (near : |x - c| ≤ 1 / 2) (rounded : |(c : ℚ) / (10 * w : Nat) - k| ≤ 1 / 2)
    (closer : |(10 * w * j : ℚ) - x| < |(10 * w * k : ℚ) - x|) :
    |(c : ℤ) - 10 * w * k| = 5 * w ∧ 0 < (c - 10 * w * k : ℚ) * (x - c) := by
  have w_pos' : (0 : ℚ) < w := by exact_mod_cast w_pos
  have rounded : |(c : ℤ) - 10 * w * k| ≤ 5 * w := by
    have scaled : (c - 10 * w * k : ℚ) = 10 * w * (c / (10 * w : Nat) - k) := by
      push_cast
      field_simp
    have distance : |(c - 10 * w * k : ℚ)| ≤ 5 * w := by
      rw [scaled, abs_mul, abs_of_pos (by linarith)]
      linarith [mul_le_mul_of_nonneg_left rounded w_pos'.le]
    exact_mod_cast distance
  have other : (10 * w * j : ℚ) - x =
      10 * (w : ℤ) * ((j - k : ℤ) : ℚ) -
        (((c - 10 * w * k : ℤ) : ℚ) + (x - c)) := by
    push_cast
    ring
  have own : x - 10 * w * k = ((c - 10 * w * k : ℤ) : ℚ) + (x - c) := by
    push_cast
    ring
  rw [abs_sub_comm (10 * w * k : ℚ), other, own] at closer
  have found := halfway_of_closer (by omega) near rounded closer
  exact_mod_cast found

/-- A middle in a smaller unit. -/
theorem middle_units_iff {c k u w : Nat} {x : ℚ} (u_pos : 0 < u) :
    (2 * |(u * c - u * (10 * w * k) : ℚ)| = ((10 * w * u : Nat) : ℚ) ∧
        0 < (u * c - u * (10 * w * k) : ℚ) * (u * x - u * c)) ↔
      |(c : ℤ) - 10 * w * k| = 5 * w ∧ 0 < (c - 10 * w * k : ℚ) * (x - c) := by
  have u_pos' : (0 : ℚ) < u := by exact_mod_cast u_pos
  have scaled : 2 * |(u * c - u * (10 * w * k) : ℚ)| =
      u * (2 * |(c - 10 * w * k : ℚ)|) := by
    rw [← mul_sub, abs_mul, abs_of_pos u_pos']
    ring
  have spacing : ((10 * w * u : Nat) : ℚ) = u * (2 * (5 * w)) := by
    push_cast
    ring
  have square : (u * c - u * (10 * w * k) : ℚ) * (u * x - u * c) =
    u * u * ((c - 10 * w * k) * (x - c)) := by ring
  rw [scaled, spacing, mul_right_inj' u_pos'.ne', mul_right_inj' two_ne_zero,
    square, mul_pos_iff_of_pos_left (mul_pos u_pos' u_pos')]
  exact and_congr_left fun _ => by exact_mod_cast Iff.rfl

/-- Rounded to fewer places than it settled at, a ratio is further away exactly
when it settled at a middle and lies beyond it. -/
theorem exists_closer_iff_of_lt {settled places : Nat} {y : ℚ} (pos : 0 < den)
    (settles : SettlesAt num den settled) (fewer : places < settled)
    (value : m = roundHalfEven (num * tenPow settled) den *
      tenPow (maxScale - settled))
    (units : y = num / den * tenPow maxScale) :
    (∃ n, IsShown places n ∧ |n - y| < |atPlaces places m - y|) ↔
      2 * |(m : ℚ) - atPlaces places m| = tenPow (maxScale - places) ∧
        0 < ((m : ℚ) - atPlaces places m) * (y - m) := by
  have le : settled ≤ maxScale := settles.le
  have fits := settles.fits
  have near := (isNearest_roundHalfEven (num * tenPow settled) pos).near
  rw [ratio_units num den le] at units
  generalize ((num * tenPow settled : Nat) : ℚ) / den = x at near units
  generalize roundHalfEven (num * tenPow settled) den = c at fits near value
  -- In units of the last place that the ratio settled at, the places left make
  -- a grid of `10 * w`.
  obtain ⟨i, rfl⟩ : ∃ i, settled = places + 1 + i :=
    ⟨settled - places - 1, by omega⟩
  have grid : tenPow (maxScale - places) =
      10 * tenPow i * tenPow (maxScale - (places + 1 + i)) := by
    have exponent :
      maxScale - places = i + 1 + (maxScale - (places + 1 + i)) := by omega
    rw [exponent, tenPow_add, tenPow_succ, Nat.mul_comm (tenPow i)]
  have shown {n : Nat} (isShown : IsShown places n) :
      ∃ j : Nat, n = tenPow (maxScale - places) * j := by
    obtain ⟨mantissa, scale, _, _, le, rfl⟩ := isShown
    refine ⟨mantissa * tenPow (places - scale), ?_⟩
    have exponent :
      maxScale - scale = maxScale - places + (places - scale) := by omega
    rw [exponent, tenPow_add]
    ring
  have whole {j : Nat} (fits : j < capacity) :
      IsShown places (tenPow (maxScale - places) * j) :=
    ⟨j, places, fits, by omega, le_refl _, Nat.mul_comm _ _⟩
  have u_pos := tenPow_pos (maxScale - (places + 1 + i))
  have w_pos := tenPow_pos i
  unfold atPlaces
  rw [grid] at shown whole ⊢
  generalize tenPow (maxScale - (places + 1 + i)) = u at *
  generalize tenPow i = w at *
  rw [value, roundHalfEven_mul (by omega) u_pos]
  have rounded := (isNearest_roundHalfEven c (by omega : 0 < 10 * w)).near
  generalize roundHalfEven c (10 * w) = k at rounded
  have result : ((k * (10 * w * u) : Nat) : ℚ) = u * (10 * w * k) := by
    push_cast
    ring
  have quotient : ((c * u : Nat) : ℚ) = u * c := by
    push_cast
    ring
  have multiple (j : Nat) : ((10 * w * u * j : Nat) : ℚ) = u * (10 * w * j) := by
    push_cast
    ring
  have scaled (j : Nat) :
      |(u * (10 * w * j) - u * x : ℚ)| < |u * (10 * w * k) - u * x| ↔
      |(10 * w * j : ℚ) - x| < |(10 * w * k : ℚ) - x| :=
    abs_scaled_lt_iff (by exact_mod_cast u_pos)
  rw [result, quotient, units, middle_units_iff u_pos]
  constructor
  · rintro ⟨n, isShown, closer⟩
    obtain ⟨j, rfl⟩ := shown isShown
    rw [multiple, scaled] at closer
    exact middle_of_closer w_pos near rounded closer
  · rintro ⟨half, far⟩
    obtain ⟨j, small, closer⟩ := exists_closer_of_middle w_pos fits half far
    exact ⟨10 * w * u * j, whole small, by rwa [multiple, scaled]⟩

/-- Places that a ratio does not fill change nothing. -/
theorem atPlaces_of_le {settled places mantissa : Nat} (le : settled ≤ places) :
    atPlaces places (mantissa * tenPow (maxScale - settled)) =
      mantissa * tenPow (maxScale - settled) := by
  have exponent : maxScale - settled = min places maxScale - settled +
    (maxScale - places) := by omega
  rw [atPlaces, exponent, tenPow_add, ← Nat.mul_assoc,
    roundHalfEven_mul_self (tenPow_pos _)]

/-- With some of the places the digits of the number do not fit any more, by so
little that the largest mantissa is nearer than what fits with one place less. -/
def PastCapacity (places : Nat) (x : ℚ) : Prop :=
  ∃ scale, scale ≤ maxScale ∧ scale ≤ places ∧
    (capacity : ℚ) - 1 / 2 ≤ x * 10 ^ scale ∧
    x * 10 ^ scale < capacity + 3 / 2

/-- A ratio is only past the capacity with one place more than it settled at. -/
theorem scale_eq_of_pastCapacity {settled scale : Nat} (pos : 0 < den)
    (settles : SettlesAt num den settled) (le : scale ≤ maxScale)
    (low : (capacity : ℚ) - 1 / 2 ≤ ((num * tenPow scale : Nat) : ℚ) / den)
    (high : ((num * tenPow scale : Nat) : ℚ) / den < capacity + 3 / 2) :
    scale = settled + 1 := by
  have large := (capacity_le_roundHalfEven_iff _ pos).mpr low
  have more : settled < scale := by
    by_contra less
    have settled_large := large_of_le (Nat.not_lt.mp less) large
    have fits := settles.fits
    omega
  by_contra other
  -- With one place less the digits would fit, so the ratio would have
  -- settled there.
  have before :=
    (capacity_le_roundHalfEven_iff _ pos).mp
      (large_of_le (by omega : settled + 1 ≤ scale - 1)
    (settles.next (by omega)))
  have tenth : ((num * tenPow scale : Nat) : ℚ) / den =
      10 * (((num * tenPow (scale - 1) : Nat) : ℚ) / den) := by
    have exponent : scale = scale - 1 + 1 := by omega
    rw [exponent, tenPow_succ, Nat.add_sub_cancel]
    push_cast
    ring
  have value : (capacity : ℚ) = 79228162514264337593543950336 := by
    norm_num [capacity]
  linarith

/-- A mantissa of the places that a ratio settled at, with one place more. -/
theorem units_next {settled : Nat} (c : Nat) (less : settled < maxScale) :
    ((c * tenPow (maxScale - settled) : Nat) : ℚ) =
      tenPow (maxScale - (settled + 1)) * (10 * (c : ℤ)) := by
  have exponent : maxScale - settled = maxScale - (settled + 1) + 1 := by omega
  rw [exponent, tenPow_succ]
  push_cast
  ring

theorem near_next {settled c : Nat}
    (near : |((num * tenPow settled : Nat) : ℚ) / den - c| ≤ 1 / 2) :
    |(10 * (c : ℤ) - ((num * tenPow (settled + 1) : Nat) : ℚ) / den : ℚ)| ≤ 5 := by
  have tenth : (10 * (c : ℤ) - ((num * tenPow (settled + 1) : Nat) : ℚ) / den : ℚ) =
      -10 * (((num * tenPow settled : Nat) : ℚ) / den - c) := by
    rw [tenPow_succ]
    push_cast
    ring
  rw [tenth, abs_mul, abs_neg, abs_of_pos (by norm_num)]
  linarith

/-- No mantissa with the places that a ratio settled at, or fewer, is nearer. -/
theorem not_closer_of_le {settled scale c mantissa : Nat}
    (le : settled ≤ maxScale) (shallower : scale ≤ settled)
    (near : |((num * tenPow settled : Nat) : ℚ) / den - c| ≤ 1 / 2) :
    ¬ |((mantissa * tenPow (maxScale - scale) : Nat) : ℚ) - num / den *
      tenPow maxScale| < |((c * tenPow (maxScale - settled) : Nat) : ℚ) - num /
        den * tenPow maxScale| := by
  have u_pos : (0 : ℚ) < tenPow (maxScale - settled) := by
    exact_mod_cast tenPow_pos _
  have exponent :
    maxScale - scale = maxScale - settled + (settled - scale) := by omega
  have other : ((mantissa * tenPow (maxScale - scale) : Nat) : ℚ) =
      tenPow (maxScale - settled) *
        ((mantissa * tenPow (settled - scale) : Nat) : ℤ) := by
    rw [exponent, tenPow_add]
    push_cast
    ring
  have own : ((c * tenPow (maxScale - settled) : Nat) : ℚ) =
      tenPow (maxScale - settled) * (c : ℤ) := by
    push_cast
    ring
  rw [own, other, ratio_units num den le, abs_scaled_lt_iff u_pos]
  exact not_lt.mpr (abs_le_of_near near)

/-- A mantissa with more places is at most the largest one with one place more,
so it is only nearer to a ratio that is just past the capacity there. -/
theorem lt_of_closer_of_lt {settled scale c mantissa : Nat}
    (deeper : settled < scale) (le : scale ≤ maxScale)
    (fits : mantissa < capacity)
    (large : (capacity : ℚ) - 1 / 2 ≤
      ((num * tenPow (settled + 1) : Nat) : ℚ) / den)
    (near : |((num * tenPow settled : Nat) : ℚ) / den - c| ≤ 1 / 2)
    (closer : |((mantissa * tenPow (maxScale - scale) : Nat) : ℚ) - num / den *
      tenPow maxScale| < |((c * tenPow (maxScale - settled) : Nat) : ℚ) - num /
        den * tenPow maxScale|) :
    ((num * tenPow (settled + 1) : Nat) : ℚ) / den < capacity + 3 / 2 := by
  have less : settled + 1 ≤ maxScale := by omega
  have v_pos : (0 : ℚ) < tenPow (maxScale - (settled + 1)) := by
    exact_mod_cast tenPow_pos _
  have steps : (1 : ℚ) ≤ tenPow (scale - (settled + 1)) := by
    exact_mod_cast tenPow_pos _
  have other : ((mantissa * tenPow (maxScale - scale) : Nat) : ℚ) =
      tenPow (maxScale - (settled + 1)) *
        (mantissa / tenPow (scale - (settled + 1))) := by
    have exponent : maxScale - (settled + 1) =
      maxScale - scale + (scale - (settled + 1)) := by omega
    have steps_ne : (tenPow (scale - (settled + 1)) : ℚ) ≠ 0 := by linarith
    rw [exponent, tenPow_add]
    push_cast
    field_simp
  have small : (mantissa / tenPow (scale - (settled + 1)) : ℚ) ≤ capacity - 1 := by
    have most : (mantissa : ℚ) ≤ capacity - 1 := by
      have : (mantissa : ℚ) + 1 ≤ capacity := by exact_mod_cast fits
      linarith
    exact (div_le_self (Nat.cast_nonneg _) steps).trans most
  rw [units_next c less, other, ratio_units num den less,
    abs_scaled_lt_iff v_pos] at closer
  exact lt_of_closer large (near_next near) small closer

/-- With the places that a ratio settled at, or more, the result is further away
exactly when the ratio is just past the capacity. -/
theorem exists_closer_iff_of_le {settled places : Nat} {y : ℚ} (pos : 0 < den)
    (settles : SettlesAt num den settled) (more : settled ≤ places)
    (value : m = roundHalfEven (num * tenPow settled) den *
      tenPow (maxScale - settled))
    (units : y = num / den * tenPow maxScale) :
    (∃ n, IsShown places n ∧ |n - y| < |m - y|) ↔
    PastCapacity places (num / den) := by
  have near := (isNearest_roundHalfEven (num * tenPow settled) pos).near
  rw [value, units]
  constructor
  · rintro ⟨n, ⟨mantissa, scale, fits, le, within, rfl⟩, closer⟩
    rcases Nat.lt_or_ge settled scale with deeper | shallower
    · have large :=
        (capacity_le_roundHalfEven_iff _ pos).mp (settles.next (by omega))
      refine ⟨settled + 1, by omega, by omega, ?_⟩
      rw [ratio_digits]
      exact ⟨large, lt_of_closer_of_lt deeper le fits large near closer⟩
    · exact absurd closer (not_closer_of_le settles.le shallower near)
  · rintro ⟨scale, le, within, low, high⟩
    rw [ratio_digits] at low high
    obtain rfl := scale_eq_of_pastCapacity pos settles le low high
    have v_pos : (0 : ℚ) < tenPow (maxScale - (settled + 1)) := by
      exact_mod_cast tenPow_pos _
    have largest :
        (((capacity - 1) * tenPow (maxScale - (settled + 1)) : Nat) : ℚ) =
        tenPow (maxScale - (settled + 1)) * (capacity - 1) := by
      rw [Nat.cast_mul, Nat.cast_sub (by decide), Nat.cast_one, mul_comm]
    refine ⟨(capacity - 1) * tenPow (maxScale - (settled + 1)),
      ⟨_, _, by decide, le, within, rfl⟩, ?_⟩
    rw [largest, units_next _ le, ratio_units num den le, abs_scaled_lt_iff v_pos]
    exact closer_of_lt _ low high

/-- A decimal is nearer to a ratio than the nearest decimal rounded to places in
two ways only: the nearest decimal is a middle and the ratio lies beyond it, or
the ratio is just past the capacity. -/
theorem exists_closer_iff {places : Nat} {y : ℚ} (pos : 0 < den)
    (found : nearest num den = some m) (units : y = num / den * tenPow maxScale) :
    (∃ n, IsShown places n ∧ |n - y| < |atPlaces places m - y|) ↔
      (2 * |(m : ℚ) - atPlaces places m| = tenPow (maxScale - places) ∧
        0 < ((m : ℚ) - atPlaces places m) * (y - m)) ∨
        PastCapacity places (num / den) := by
  obtain ⟨settled, settles, value⟩ := exists_settlesAt found
  rcases Nat.lt_or_ge places settled with fewer | more
  · have within : ¬ PastCapacity places (num / den) := by
      rintro ⟨scale, le, within, low, high⟩
      rw [ratio_digits] at low high
      have deeper := scale_eq_of_pastCapacity pos settles le low high
      omega
    rw [exists_closer_iff_of_lt pos settles fewer value units]
    simp only [within, or_false]
  · have same : atPlaces places m = m := by
      rw [value]
      exact atPlaces_of_le more
    have apart : (tenPow (maxScale - places) : ℚ) ≠ 0 := by
      exact_mod_cast (tenPow_pos _).ne'
    rw [same, exists_closer_iff_of_le pos settles more value units, sub_self,
      abs_zero, mul_zero]
    simp only [apart.symm, false_and, false_or]

end

end FieldExpr.Decimal
