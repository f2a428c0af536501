import FieldExpr.Decimal.Arithmetic
import FieldExpr.Proofs.Decimal.Value

/-!
# The nearest decimal

Every arithmetic operation works out an exact ratio and rounds it once: half to
even, at the largest scale at which the rounded mantissa fits (`nearest`). The
result depends on the ratio alone, not on how it is written as a fraction; that
is why the operations do not see the scales of their operands.
-/

namespace FieldExpr

/-! ## Rounding half to even -/

section

variable {m n d k q r : Nat}

/-- Rounding from a quotient and its remainder. -/
theorem roundHalfEven_of_split (lt : r < d) :
    roundHalfEven (q * d + r) d = if d < 2 * r ∨ (2 * r = d ∧ q % 2 = 1) then
    q + 1 else q := by
  have pos : 0 < d := by omega
  have quotient : (q * d + r) / d = q := by
    rw [Nat.mul_comm, Nat.mul_add_div pos, Nat.div_eq_of_lt lt, Nat.add_zero]
  have rest : (q * d + r) % d = r := by
    rw [Nat.mul_comm, Nat.mul_add_mod, Nat.mod_eq_of_lt lt]
  unfold roundHalfEven
  rw [quotient, rest]

theorem roundHalfEven_mul_self (pos : 0 < d) : roundHalfEven (q * d) d = q := by
  have split := roundHalfEven_of_split (q := q) pos
  rw [Nat.add_zero] at split
  rw [split, if_neg (by omega)]

theorem roundHalfEven_mul (pos : 0 < d) (k_pos : 0 < k) :
    roundHalfEven (n * k) (d * k) = roundHalfEven n d := by
  have lt : n % d < d := Nat.mod_lt n pos
  have lt' : n % d * k < d * k := Nat.mul_lt_mul_of_pos_right lt k_pos
  have parts : n = n / d * d + n % d := by
    rw [Nat.mul_comm]
    exact (Nat.div_add_mod n d).symm
  have parts' : n * k = n / d * (d * k) + n % d * k := by
    rw [← Nat.mul_assoc, ← Nat.add_mul, ← parts]
  have less : d * k < 2 * (n % d * k) ↔ d < 2 * (n % d) := by
    rw [← Nat.mul_assoc]
    exact Nat.mul_lt_mul_right k_pos
  have half : 2 * (n % d * k) = d * k ↔ 2 * (n % d) = d := by
    rw [← Nat.mul_assoc]
    exact Nat.mul_left_inj (by omega)
  rw [parts', roundHalfEven_of_split lt']
  simp only [less, half]
  rfl

/-- Rounding sees a ratio, not its terms. -/
theorem roundHalfEven_eq_of_ratio {n' d' : Nat} (pos : 0 < d) (pos' : 0 < d')
    (ratio : n * d' = n' * d) :
    roundHalfEven n d = roundHalfEven n' d' := by
  rw [← roundHalfEven_mul pos pos', ← roundHalfEven_mul pos' pos, ratio,
    Nat.mul_comm d]

theorem div_le_roundHalfEven (n d : Nat) : n / d ≤ roundHalfEven n d := by
  unfold roundHalfEven
  dsimp only
  split <;> omega

theorem roundHalfEven_le_succ (n d : Nat) : roundHalfEven n d ≤ n / d + 1 := by
  unfold roundHalfEven
  dsimp only
  split <;> omega

theorem roundHalfEven_mono (le : m ≤ n) :
    roundHalfEven m d ≤ roundHalfEven n d := by
  have quotients : m / d ≤ n / d := Nat.div_le_div_right le
  rcases Nat.eq_or_lt_of_le quotients with equal | less
  · -- Within one quotient the larger number has the larger rest.
    have rests : m % d ≤ n % d := by
      have first := Nat.div_add_mod m d
      have second := Nat.div_add_mod n d
      rw [equal] at first
      omega
    unfold roundHalfEven
    dsimp only
    rw [equal]
    split <;> split <;> omega
  · have low := roundHalfEven_le_succ m d
    have high := div_le_roundHalfEven n d
    omega

end

namespace Decimal

/-! ## The nearest decimal -/

/-- The decimal with `places` fraction digits that is nearest to `num / den`, in
units of the last place there is, if its mantissa fits. -/
def nearestAt (num den places : Nat) : Option Nat :=
  let mantissa := roundHalfEven (num * tenPow places) den
  if mantissa < capacity then some (mantissa * tenPow (maxScale - places)) else none

/-- The same with as many fraction digits as fit, at most `places`. -/
def nearestFrom (num den : Nat) : (places : Nat) → Option Nat
  | 0 => nearestAt num den 0
  | places + 1 => nearestAt num den (places + 1) <|> nearestFrom num den places

/-- The decimal nearest to `num / den`, in units of the last place there is. -/
def nearest (num den : Nat) : Option Nat :=
  nearestFrom num den maxScale

section

variable {num den places : Nat}

theorem nearestAt_eq_none
    (large : capacity ≤ roundHalfEven (num * tenPow places) den) :
    nearestAt num den places = none :=
  if_neg (Nat.not_lt.mpr large)

theorem nearestAt_eq_some
    (fits : roundHalfEven (num * tenPow places) den < capacity) :
    nearestAt num den places =
      some (roundHalfEven (num * tenPow places) den * tenPow (maxScale - places)) :=
  if_pos fits

theorem nearestFrom_eq_some
    (fits : roundHalfEven (num * tenPow places) den < capacity) :
    nearestFrom num den places =
      some (roundHalfEven (num * tenPow places) den *
        tenPow (maxScale - places)) := by
  cases places with
  | zero => exact nearestAt_eq_some fits
  | succ places =>
    unfold nearestFrom
    rw [nearestAt_eq_some fits]
    rfl

theorem nearestFrom_succ
    (large : capacity ≤ roundHalfEven (num * tenPow (places + 1)) den) :
    nearestFrom num den (places + 1) = nearestFrom num den places := by
  rw [nearestFrom, nearestAt_eq_none large]
  rfl

/-- What does not fit with some fraction digits does not fit with more. -/
theorem large_of_le {more : Nat} (le : places ≤ more)
    (large : capacity ≤ roundHalfEven (num * tenPow places) den) :
    capacity ≤ roundHalfEven (num * tenPow more) den := by
  refine Nat.le_trans large (roundHalfEven_mono (Nat.mul_le_mul_left num ?_))
  obtain ⟨k, rfl⟩ := Nat.exists_eq_add_of_le le
  rw [tenPow_add]
  exact Nat.le_mul_of_pos_right _ (tenPow_pos k)

theorem nearestFrom_eq_of_large {more : Nat} (le : places ≤ more)
    (large : capacity ≤ roundHalfEven (num * tenPow (places + 1)) den) :
    nearestFrom num den more = nearestFrom num den places := by
  induction more with
  | zero => rw [Nat.le_zero.mp le]
  | succ more ih =>
    rcases Nat.eq_or_lt_of_le le with equal | less
    · rw [equal]
    · rw [nearestFrom_succ (large_of_le (by omega) large)]
      exact ih (by omega)

theorem nearestFrom_eq_none (large : capacity ≤ roundHalfEven num den) :
    nearestFrom num den places = none := by
  have whole : capacity ≤ roundHalfEven (num * tenPow 0) den := by
    rwa [show num * tenPow 0 = num from Nat.mul_one num]
  induction places with
  | zero => exact nearestAt_eq_none whole
  | succ places ih => rw [nearestFrom_succ (large_of_le (Nat.zero_le _) whole), ih]

/-- A ratio that is a decimal is nearest to itself. -/
theorem nearestFrom_exact {digits scale : Nat} (pos : 0 < den)
    (exact : num * tenPow scale = digits * den) (fits : digits < capacity)
    (le : scale ≤ places) (high : places ≤ maxScale) :
    nearestFrom num den places = some (digits * tenPow (maxScale - scale)) := by
  have rounded : ∀ more, num * tenPow (scale + more) =
      digits * tenPow more * den := by
    intro more
    rw [tenPow_add, ← Nat.mul_assoc, exact, Nat.mul_assoc, Nat.mul_assoc,
      Nat.mul_comm den]
  obtain ⟨more, rfl⟩ := Nat.exists_eq_add_of_le le
  induction more with
  | zero =>
    have value : roundHalfEven (num * tenPow scale) den = digits := by
      rw [exact]
      exact roundHalfEven_mul_self pos
    have small : roundHalfEven (num * tenPow (scale + 0)) den < capacity := by
      rw [Nat.add_zero, value]
      exact fits
    rw [nearestFrom_eq_some small, Nat.add_zero, value]
  | succ more ih =>
    have value : roundHalfEven (num * tenPow (scale + (more + 1))) den =
        digits * tenPow (more + 1) := by
      rw [rounded]
      exact roundHalfEven_mul_self pos
    by_cases small : digits * tenPow (more + 1) < capacity
    · have exponent :
        maxScale - scale = more + 1 + (maxScale - (scale + (more + 1))) := by omega
      rw [nearestFrom_eq_some (value ▸ small), value, exponent,
        tenPow_add (more + 1), Nat.mul_assoc]
    · have large :
          capacity ≤ roundHalfEven (num * tenPow (scale + more + 1)) den := by
        rw [Nat.add_assoc, value]
        exact Nat.not_lt.mp small
      show nearestFrom num den (scale + more + 1) = _
      rw [nearestFrom_succ large]
      exact ih (Nat.le_add_right _ _) (by omega)

/-- The nearest decimal depends on the ratio alone. -/
theorem nearest_eq_of_ratio {num' den' : Nat} (pos : 0 < den) (pos' : 0 < den')
    (ratio : num * den' = num' * den) : nearest num den = nearest num' den' := by
  have rounded : ∀ places, roundHalfEven (num * tenPow places) den =
      roundHalfEven (num' * tenPow places) den' := by
    intro places
    refine roundHalfEven_eq_of_ratio pos pos' ?_
    rw [Nat.mul_right_comm, ratio, Nat.mul_right_comm]
  have at_place : ∀ places, nearestAt num den places =
      nearestAt num' den' places := by
    intro places
    unfold nearestAt
    rw [rounded]
  unfold nearest
  generalize maxScale = places
  induction places with
  | zero => exact at_place 0
  | succ places ih =>
    unfold nearestFrom
    rw [at_place, ih]

end

/-! ## Fitting -/

section

variable {mantissa scale places : Nat}

/-- A mantissa and scale, in units of the last place there is. -/
def worth (parts : Nat × Nat) : Nat :=
  parts.1 * tenPow (maxScale - parts.2)

theorem fitAt_eq (le : places ≤ scale) :
    fitAt mantissa scale places =
      if roundHalfEven (mantissa * tenPow places) (tenPow scale) < capacity then
        some (roundHalfEven (mantissa * tenPow places) (tenPow scale), places)
      else none := by
  have rounded : roundHalfEven (mantissa * tenPow places) (tenPow scale) =
      roundHalfEven mantissa (tenPow (scale - places)) := by
    have exponent : scale = scale - places + places := by omega
    rw [exponent, tenPow_add, roundHalfEven_mul (tenPow_pos _) (tenPow_pos _),
      Nat.add_sub_cancel]
  unfold fitAt
  rw [rounded]

theorem fitAt_worth (le : places ≤ scale) :
    (fitAt mantissa scale places).map worth = nearestAt mantissa
      (tenPow scale) places := by
  rw [fitAt_eq le]
  unfold nearestAt
  dsimp only
  split
  · rfl
  · rfl

theorem fitFrom_worth (le : places ≤ scale) :
    (fitFrom mantissa scale places).map worth = nearestFrom mantissa
      (tenPow scale) places := by
  induction places with
  | zero => exact fitAt_worth le
  | succ places ih =>
    unfold fitFrom nearestFrom
    rw [← fitAt_worth le, ← ih (by omega)]
    cases fitAt mantissa scale (places + 1) <;> rfl

/-- Fitting a mantissa and scale finds the nearest decimal. -/
theorem fit_worth (mantissa scale : Nat) :
    (fit mantissa scale).map worth = nearest mantissa (tenPow scale) := by
  unfold fit nearest
  rw [fitFrom_worth (Nat.min_le_left _ _)]
  rcases Nat.le_total maxScale scale with le | le
  · rw [Nat.min_eq_right le]
  · rw [Nat.min_eq_left le]
    by_cases fits : mantissa < capacity
    · rw [nearestFrom_exact (tenPow_pos _) rfl fits (Nat.le_refl _) le,
        nearestFrom_exact (tenPow_pos _) rfl fits le (Nat.le_refl _)]
    · -- More fraction digits than there are only make the mantissa larger.
      have large : capacity ≤ roundHalfEven (mantissa * tenPow (scale + 1))
          (tenPow scale) := by
        rw [tenPow_succ, Nat.mul_comm (tenPow scale), ← Nat.mul_assoc,
          roundHalfEven_mul_self (tenPow_pos _)]
        omega
      rw [nearestFrom_eq_of_large le large]

theorem fitFrom_bounds {parts : Nat × Nat}
    (fitted : fitFrom mantissa scale places = some parts) :
    parts.1 < capacity ∧ parts.2 ≤ places := by
  have at_place : ∀ {places}, fitAt mantissa scale places = some parts →
      parts.1 < capacity ∧ parts.2 = places := by
    intro places fitted
    unfold fitAt at fitted
    dsimp only at fitted
    split at fitted
    · cases fitted
      exact ⟨‹_›, rfl⟩
    · cases fitted
  induction places with
  | zero =>
    obtain ⟨lt, equal⟩ := at_place fitted
    exact ⟨lt, Nat.le_of_eq equal⟩
  | succ places ih =>
    unfold fitFrom at fitted
    cases first : fitAt mantissa scale (places + 1) with
    | some found =>
      rw [first] at fitted
      cases fitted
      obtain ⟨lt, equal⟩ := at_place first
      exact ⟨lt, Nat.le_of_eq equal⟩
    | none =>
      rw [first] at fitted
      obtain ⟨lt, le⟩ := ih fitted
      exact ⟨lt, Nat.le_succ_of_le le⟩

end

/-! ## Decimals of parts -/

theorem ofParts?_eq {mantissa scale : Nat} (negative : Bool)
    (fits : mantissa < capacity) (le : scale ≤ maxScale) :
    ofParts? negative mantissa scale = some ⟨negative, mantissa, scale, fits, le⟩ :=
  dif_pos ⟨fits, le⟩

theorem ofParts?_units {mantissa scale : Nat} (negative : Bool)
    (fits : mantissa < capacity) (le : scale ≤ maxScale) :
    (ofParts? negative mantissa scale).map units =
      some (signed negative (worth (mantissa, scale))) := by
  rw [ofParts?_eq negative fits le]
  rfl

/-- The decimal that fits best is the nearest one, under the sign that it is
given. -/
theorem fit_units (negative : Nat → Bool) (mantissa scale : Nat) :
    ((fit mantissa scale).bind fun parts =>
      ofParts? (negative parts.1) parts.1 parts.2).map units =
      ((fit mantissa scale).map fun parts =>
          signed (negative parts.1) (worth parts)) := by
  cases fitted : fit mantissa scale with
  | none => rfl
  | some parts =>
    obtain ⟨lt, le⟩ := fitFrom_bounds fitted
    exact ofParts?_units _ lt (Nat.le_trans le (Nat.min_le_right _ _))

end Decimal

end FieldExpr
