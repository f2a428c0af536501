import FieldExpr.Proofs.Decimal.Arithmetic

/-!
# Quotients by value

Long division keeps the exact ratio in its digits and rest (`Developed`)
whatever groups of digits it takes, and where it stops it has found the nearest
decimal (`Settled`). The quotient is thus a function of the values of the
operands, and so is the choice between a quotient and overflow.
-/

namespace FieldExpr.Decimal

/-! ## Room for digits -/

namespace Quotient

variable {q : Quotient}

/-- There is room for this many digits more. -/
def HasRoom (q : Quotient) (places : Nat) : Prop :=
  q.scale + places ≤ maxScale ∧ q.digits * tenPow places < capacity

theorem room_le (q : Quotient) (limit : Nat) : q.room limit ≤ limit := by
  induction limit with
  | zero => exact Nat.le_refl _
  | succ limit ih =>
    unfold room
    split
    · exact Nat.le_refl _
    · exact Nat.le_succ_of_le ih

theorem hasRoom_room {limit : Nat} (pos : 0 < q.room limit) :
    q.HasRoom (q.room limit) := by
  induction limit with
  | zero => exact absurd pos (Nat.lt_irrefl 0)
  | succ limit ih =>
    unfold room at pos ⊢
    split
    · exact ‹_›
    · rename_i full
      rw [if_neg full] at pos
      exact ih pos

theorem not_hasRoom {limit places : Nat} (above : q.room limit < places)
    (le : places ≤ limit) :
    ¬ q.HasRoom places := by
  induction limit with
  | zero =>
    have none : q.room 0 = 0 := rfl
    omega
  | succ limit ih =>
    unfold room at above
    split at above
    · omega
    · rename_i full
      rcases Nat.eq_or_lt_of_le le with equal | less
      · rw [equal]
        exact full
      · exact ih above (by omega)

end Quotient

/-! ## What division keeps -/

/-- The digits and the rest developed so far stand for `num / den` exactly. -/
structure Developed (num den divisor : Nat) (q : Quotient) : Prop where
  rest_lt : q.rest < divisor
  scale_le : q.scale ≤ maxScale
  ratio : (q.digits * divisor + q.rest) * tenPow (maxScale - q.scale).toNat * den =
    num * tenPow maxScale * divisor

/-- The outcome of a division is the decimal nearest to `num / den`, or overflow
where there is none. -/
def Settled (num den : Nat) : Option Quotient → Prop
  | none => nearest num den = none
  | some q => q.digits < capacity ∧ 0 ≤ q.scale ∧ q.scale ≤ maxScale ∧
      nearest num den = some (worth (q.digits, q.scale.toNat))

namespace Developed

variable {num den divisor : Nat} {q : Quotient}
    (developed : Developed num den divisor q)

include developed

theorem divisor_pos : 0 < divisor :=
  Nat.lt_of_le_of_lt (Nat.zero_le _) developed.rest_lt

/-- The ratio with `places` fraction digits, of which `more` are still to
be developed. -/
theorem ratio_at (places more : Nat) (aligned : q.scale + more = places)
    (le : places ≤ maxScale) :
    (q.digits * divisor + q.rest) * tenPow more * den =
      num * tenPow places * divisor := by
  have exponent : (maxScale - q.scale).toNat = more + (maxScale - places) := by
    omega
  have total : maxScale = places + (maxScale - places) := by omega
  have ratio := developed.ratio
  rw [exponent, tenPow_add] at ratio
  refine Nat.eq_of_mul_eq_mul_right (tenPow_pos (maxScale - places)) ?_
  calc (q.digits * divisor + q.rest) * tenPow more * den *
        tenPow (maxScale - places)
      = (q.digits * divisor + q.rest) *
          (tenPow more * tenPow (maxScale - places)) * den := by
        rw [← Nat.mul_assoc, Nat.mul_right_comm]
    _ = num * tenPow (places + (maxScale - places)) * divisor := by
      rw [ratio, ← total]
    _ = num * tenPow places * divisor * tenPow (maxScale - places) := by
        rw [tenPow_add, ← Nat.mul_assoc, Nat.mul_right_comm]

variable (den_pos : 0 < den)

include den_pos

/-- The digits are no more than the ratio. -/
theorem digits_le (places more : Nat) (aligned : q.scale + more = places)
    (le : places ≤ maxScale) :
    q.digits * tenPow more ≤ roundHalfEven (num * tenPow places) den := by
  have ratio := developed.ratio_at places more aligned le
  have product : q.digits * tenPow more * den * divisor ≤
      num * tenPow places * divisor := by
    rw [← ratio, Nat.add_mul, Nat.add_mul, Nat.mul_right_comm,
      Nat.mul_right_comm q.digits, Nat.mul_right_comm (q.digits * divisor)]
    exact Nat.le_add_right _ _
  have floor : q.digits * tenPow more ≤ num * tenPow places / den :=
    (Nat.le_div_iff_mul_le den_pos).mpr
      (Nat.le_of_mul_le_mul_right product developed.divisor_pos)
  exact Nat.le_trans floor (div_le_roundHalfEven _ _)

/-- A ratio whose whole part does not fit is nearest to nothing. -/
theorem overflow (more : Nat) (low : q.scale + more ≤ 0)
    (large : capacity ≤ q.digits * tenPow more) :
    nearest num den = none := by
  obtain ⟨extra, whole⟩ : ∃ extra : Nat, q.scale + (more + extra : Nat) =
      (0 : Nat) :=
    ⟨(-(q.scale + more)).toNat, by omega⟩
  have digits_le := developed.digits_le den_pos 0 (more + extra) whole
    (Nat.zero_le _)
  refine nearestFrom_eq_none ?_
  rw [show num * tenPow 0 = num from Nat.mul_one num,
    tenPow_add, ← Nat.mul_assoc] at digits_le
  exact Nat.le_trans large
    (Nat.le_trans (Nat.le_mul_of_pos_right _ (tenPow_pos extra)) digits_le)

/-- An exact quotient is settled. -/
theorem settled_exact (fits : q.digits < capacity) (exact : q.rest = 0)
    (nonneg : 0 ≤ q.scale) :
    Settled num den (some q) := by
  have scale_le := developed.scale_le
  have ratio := developed.ratio_at q.scale.toNat 0 (by omega) (by omega)
  have whole : num * tenPow q.scale.toNat = q.digits * den := by
    rw [exact, Nat.add_zero, show tenPow 0 = 1 from rfl, Nat.mul_one,
      Nat.mul_right_comm] at ratio
    exact (Nat.eq_of_mul_eq_mul_right developed.divisor_pos ratio).symm
  exact ⟨fits, nonneg, scale_le,
    nearestFrom_exact den_pos whole fits (by omega) (Nat.le_refl _)⟩

theorem rounded {places : Nat} (aligned : q.scale = places)
    (le : places ≤ maxScale) :
    roundHalfEven (num * tenPow places) den =
      roundHalfEven (q.digits * divisor + q.rest) divisor := by
  have ratio := developed.ratio_at places 0 (by omega) le
  rw [show tenPow 0 = 1 from rfl, Nat.mul_one] at ratio
  exact roundHalfEven_eq_of_ratio den_pos developed.divisor_pos ratio.symm

/-- Rounding with one fraction digit less drops the last digit too. -/
theorem rounded_shorter {places : Nat} (aligned : q.scale = (places + 1 : Nat))
    (le : places + 1 ≤ maxScale) :
    roundHalfEven (num * tenPow places) den =
      if 5 < q.digits % 10 ∨
          q.digits % 10 = 5 ∧ (q.rest ≠ 0 ∨ q.digits / 10 % 2 = 1) then
        q.digits / 10 + 1
      else q.digits / 10 := by
  have rest_lt := developed.rest_lt
  have ratio := developed.ratio_at (places + 1) 0 (by omega) le
  rw [show tenPow 0 = 1 from rfl, Nat.mul_one, tenPow_succ] at ratio
  have shorter : roundHalfEven (num * tenPow places) den =
      roundHalfEven (q.digits * divisor + q.rest) (divisor * 10) := by
    refine roundHalfEven_eq_of_ratio den_pos
      (Nat.mul_pos developed.divisor_pos (by decide)) ?_
    rw [ratio, Nat.mul_comm divisor, ← Nat.mul_assoc, ← Nat.mul_assoc]
  have split : q.digits * divisor + q.rest =
      q.digits / 10 * (divisor * 10) + (q.digits % 10 * divisor + q.rest) := by
    have digits : q.digits = q.digits / 10 * 10 + q.digits % 10 := by omega
    rw [Nat.mul_comm
      divisor, ← Nat.mul_assoc, ← Nat.add_assoc, ← Nat.add_mul, ← digits]
  have last_lt : q.digits % 10 < 10 := Nat.mod_lt _ (by decide)
  generalize q.digits % 10 = last at split last_lt
  generalize q.digits / 10 = kept at split
  have last_le : last * divisor ≤ 9 * divisor := Nat.mul_le_mul_right _ (by omega)
  rw [shorter, split, roundHalfEven_of_split (by omega)]
  -- The dropped part is compared with one half by its digit first, and by the
  -- rest only at five.
  rcases Nat.lt_trichotomy last 5 with less | rfl | more
  · have small : last * divisor ≤ 4 * divisor := Nat.mul_le_mul_right _ (by omega)
    rw [if_neg (by omega), if_neg (by omega)]
  · by_cases up : q.rest ≠ 0 ∨ kept % 2 = 1
    · rw [if_pos (by omega), if_pos (by omega)]
    · rw [if_neg (by omega), if_neg (by omega)]
  · have big : 6 * divisor ≤ last * divisor := Nat.mul_le_mul_right _ (by omega)
    rw [if_pos (by omega), if_pos (by omega)]

/-- A digit that does not fit is rounded away. -/
theorem settled_shorten (large : capacity ≤ q.digits)
    (bound : q.digits < (capacity - 1) * 10) :
    Settled num den q.shorten := by
  have scale_le := developed.scale_le
  unfold Quotient.shorten
  split
  · refine developed.overflow den_pos 0 (by omega) ?_
    rwa [show tenPow 0 = 1 from rfl, Nat.mul_one]
  · obtain ⟨places, aligned⟩ : ∃ places : Nat, q.scale = (places + 1 : Nat) :=
      ⟨q.scale.toNat - 1, by omega⟩
    have places_le : places + 1 ≤ maxScale := by omega
    have shorter := developed.rounded_shorter den_pos aligned places_le
    have too_large : capacity ≤ roundHalfEven (num * tenPow (places + 1)) den := by
      have digits_le :=
        developed.digits_le den_pos (places + 1) 0 (by omega) places_le
      rw [show tenPow 0 = 1 from rfl, Nat.mul_one] at digits_le
      exact Nat.le_trans large digits_le
    have fits : roundHalfEven (num * tenPow places) den < capacity := by
      rw [shorter]
      split <;> omega
    have settled :
        nearest num den =
        some (worth (roundHalfEven (num * tenPow places) den, places)) := by
      unfold nearest
      rw [nearestFrom_eq_of_large (by omega) too_large, nearestFrom_eq_some fits]
      rfl
    have scale : q.scale - 1 = places := by omega
    have low : (0 : Int) ≤ places := by omega
    have high : (places : Int) ≤ maxScale := by omega
    rw [shorter] at fits settled
    dsimp only
    rw [scale]
    exact ⟨fits, low, high, settled⟩

/-- Without room for a digit the rest is rounded away. -/
theorem settled_round (fits : q.digits < capacity) (rest : q.rest ≠ 0)
    (nonneg : 0 ≤ q.scale) (full : ¬ q.HasRoom 1) :
    Settled num den (q.round divisor) := by
  have scale_le := developed.scale_le
  obtain ⟨places, aligned⟩ : ∃ places : Nat, q.scale = places :=
    ⟨q.scale.toNat, by omega⟩
  have places_le : places ≤ maxScale := by omega
  have value := developed.rounded den_pos aligned places_le
  rw [roundHalfEven_of_split developed.rest_lt] at value
  -- One digit more is too much, so the search for the nearest decimal gets to
  -- the scale of the digits.
  have here : nearest num den = nearestFrom num den places := by
    rcases Nat.eq_or_lt_of_le places_le with last | less
    · rw [last]
      rfl
    · refine nearestFrom_eq_of_large places_le
        (Nat.le_trans ?_
          (developed.digits_le den_pos (places + 1) 1 (by omega) less))
      refine Nat.not_lt.mp fun small => full ⟨by omega, small⟩
  have up : (if divisor < 2 * q.rest ∨ 2 * q.rest = divisor ∧ q.digits % 2 = 1
      then q.digits + 1
      else q.digits) ≤ q.digits + 1 := by
    split <;> omega
  unfold Quotient.round
  generalize (if divisor < 2 * q.rest ∨ 2 * q.rest = divisor ∧ q.digits % 2 = 1
    then q.digits + 1
    else q.digits) = digits at value up
  dsimp only
  split
  · rename_i small
    have settled : nearest num den = some (worth (digits, q.scale.toNat)) := by
      rw [here, nearestFrom_eq_some (value ▸ small), value, aligned]
      rfl
    exact ⟨small, nonneg, scale_le, settled⟩
  · -- Only the largest mantissa rounds up to one that does not fit; its last
    -- digit is a five.
    rename_i carries
    have last : q.digits = capacity - 1 := by omega
    have large : capacity ≤ roundHalfEven (num * tenPow places) den := by omega
    split
    · have none : places = 0 := by omega
      subst none
      rw [show num * tenPow 0 = num from Nat.mul_one num] at large
      exact here.trans (nearestFrom_eq_none large)
    · obtain ⟨fewer, rfl⟩ : ∃ fewer, places = fewer + 1 := ⟨places - 1, by omega⟩
      have shorter := developed.rounded_shorter den_pos aligned places_le
      rw [last, if_pos (.inr ⟨by decide, .inl rest⟩)] at shorter
      have carried : (capacity - 1) / 10 + 1 = (capacity + 4) / 10 := by decide
      rw [carried] at shorter
      have small : roundHalfEven (num * tenPow fewer) den < capacity := by
        rw [shorter]
        decide
      have scale : q.scale - 1 = fewer := by omega
      have low : (0 : Int) ≤ fewer := by omega
      have high : (fewer : Int) ≤ maxScale := by omega
      have settled :
          nearest num den = some (worth ((capacity + 4) / 10, fewer)) := by
        rw [here, nearestFrom_succ large, nearestFrom_eq_some small, shorter]
        rfl
      have carried_fits : (capacity + 4) / 10 < capacity := by decide
      rw [scale]
      exact ⟨carried_fits, low, high, settled⟩

omit den_pos in
/-- More digits stand for the same ratio. -/
theorem next {places : Nat} (le : q.scale + places ≤ maxScale) (inexact : Bool) :
    Developed num den divisor
      { digits := q.digits * tenPow places + q.rest * tenPow places / divisor
        rest := q.rest * tenPow places % divisor
        scale := q.scale + places
        inexact } where
  rest_lt := Nat.mod_lt _ developed.divisor_pos
  scale_le := le
  ratio := by
    have exponent : (maxScale - q.scale).toNat =
      places + (maxScale - (q.scale + places)).toNat := by omega
    have digits :
        (q.digits * tenPow places + q.rest * tenPow places / divisor) * divisor +
        q.rest * tenPow places % divisor = (q.digits * divisor + q.rest) *
          tenPow places := by
      have split := Nat.div_add_mod (q.rest * tenPow places) divisor
      rw [Nat.add_mul, Nat.add_assoc, Nat.mul_comm (_ / divisor), split,
        Nat.add_mul, Nat.mul_right_comm]
    rw [← developed.ratio, exponent, tenPow_add]
    dsimp only
    rw [digits, Nat.mul_assoc (_ + _)]

end Developed

/-- The number of digits that a round develops: those still missing of an exact
quotient, else as many as there is room for. -/
def placesOf (q : Quotient) : Nat :=
  if q.rest = 0 then min 9 (-q.scale).toNat else q.room 9

section

variable {q : Quotient}

theorem placesOf_le (q : Quotient) : placesOf q ≤ 9 := by
  unfold placesOf
  split
  · exact Nat.min_le_left _ _
  · exact q.room_le 9

/-- An exact quotient that is still short of its whole part develops at least
one digit of it. -/
theorem placesOf_exact (exact : q.rest = 0) (negative : q.scale < 0) :
    0 < placesOf q ∧ q.scale + placesOf q ≤ 0 := by
  rw [placesOf, if_pos exact]
  omega

theorem hasRoom_placesOf (rest : q.rest ≠ 0) (pos : 0 < placesOf q) :
    q.HasRoom (placesOf q) := by
  rw [placesOf, if_neg rest] at pos ⊢
  exact Quotient.hasRoom_room pos

theorem not_hasRoom_placesOf (rest : q.rest ≠ 0) (less : placesOf q < 9) :
    ¬ q.HasRoom (placesOf q + 1) := by
  rw [placesOf, if_neg rest] at less ⊢
  exact Quotient.not_hasRoom (Nat.lt_succ_self _) less

/-- A round stays within the fraction digits there are. -/
theorem scale_add_placesOf_le (le : q.scale ≤ maxScale)
    (going : ¬ (q.rest = 0 ∧ 0 ≤ q.scale)) :
    q.scale + placesOf q ≤ maxScale := by
  by_cases rest : q.rest = 0
  · have negative : q.scale < 0 := Int.not_le.mp fun nonneg => going ⟨rest, nonneg⟩
    have low := (placesOf_exact rest negative).2
    have nonneg : (0 : Int) ≤ maxScale := Int.natCast_nonneg _
    omega
  · rcases Nat.eq_zero_or_pos (placesOf q) with zero | pos
    · omega
    · exact (hasRoom_placesOf rest pos).1

end

/-- The digits of a round that takes one too many are below the bound
for shortening. -/
theorem next_digits_lt {digits rest divisor places : Nat}
    (rest_lt : rest < divisor) (le : places ≤ 9)
    (small : digits * tenPow places < capacity) :
    digits * tenPow places + rest * tenPow places / divisor <
      (capacity - 1) * 10 := by
  have group : rest * tenPow places / divisor ≤ tenPow places := by
    refine Nat.div_le_of_le_mul ?_
    exact Nat.mul_le_mul_right _ (Nat.le_of_lt rest_lt)
  have places_le : tenPow places ≤ tenPow 9 := Nat.pow_le_pow_right (by decide) le
  have bound : capacity + tenPow 9 < (capacity - 1) * 10 := by decide
  omega

/-- Long division ends with the nearest decimal. -/
theorem develop_settled {num den divisor : Nat} (den_pos : 0 < den)
    (rounds : Nat) {q : Quotient} (developed : Developed num den divisor q)
    (fits : q.digits < capacity)
    (enough : (maxScale - q.scale).toNat < rounds) :
    Settled num den (develop divisor rounds q) := by
  -- Each round but the last adds to the scale, which is at most `maxScale`.
  induction rounds generalizing q with
  | zero => omega
  | succ rounds ih =>
    have scale_le := developed.scale_le
    unfold develop
    split
    · rename_i ended
      exact developed.settled_exact den_pos fits ended.1 ended.2
    · rename_i going
      have negative : q.rest = 0 → q.scale < 0 :=
        fun exact => Int.not_le.mp fun nonneg => going ⟨exact, nonneg⟩
      have within := scale_add_placesOf_le scale_le going
      dsimp only
      generalize (q.inexact || q.rest != 0) = inexact
      rw [show (if q.rest = 0 then min 9 (-q.scale).toNat else q.room 9) =
        placesOf q from rfl]
      split
      · -- There is no room for all the whole digits that are missing.
        rename_i short
        obtain ⟨rest, less, below⟩ := short
        have nonneg : (0 : Int) ≤ maxScale := Int.natCast_nonneg _
        have large : capacity ≤ q.digits * tenPow (placesOf q + 1) := by
          refine Nat.not_lt.mp fun small =>
            not_hasRoom_placesOf rest less ⟨?_, small⟩
          omega
        exact developed.overflow den_pos (placesOf q + 1) (by omega) large
      · rename_i long
        split
        · -- Not one digit more has room, so this is the last round.
          rename_i none
          have rest : q.rest ≠ 0 := by
            intro exact
            exact absurd none
              (Nat.ne_of_gt (placesOf_exact exact (negative exact)).1)
          have nonneg : 0 ≤ q.scale := by
            refine Int.not_lt.mp fun below => long ⟨rest, ?_, ?_⟩ <;> omega
          have same : Developed num den divisor { q with inexact } :=
            ⟨developed.rest_lt, developed.scale_le, developed.ratio⟩
          have full := not_hasRoom_placesOf rest (by omega)
          rw [none] at full
          exact same.settled_round den_pos fits rest nonneg full
        · rename_i some
          split
          · -- Only the whole digits of an exact quotient are developed without
            -- asking for room.
            rename_i large
            rcases Decidable.em (q.rest = 0) with exact | rest
            · exact developed.overflow den_pos (placesOf q)
                (placesOf_exact exact (negative exact)).2 large
            · exact absurd (hasRoom_placesOf rest (by omega)).2
                (Nat.not_lt.mpr large)
          · rename_i small
            have next := developed.next within inexact
            split
            · rename_i next_fits
              refine ih next next_fits ?_
              dsimp only
              omega
            · rename_i next_large
              refine next.settled_shorten den_pos (Nat.not_lt.mp next_large) ?_
              exact next_digits_lt developed.rest_lt (placesOf_le q)
                (Nat.not_le.mp small)

/-! ## Shed zeros -/

/-- The parts of a decimal: a mantissa that fits and no more fraction digits
than there are. -/
def Fits (parts : Nat × Nat) : Prop :=
  parts.1 < capacity ∧ parts.2 ≤ maxScale

/-- The second parts are worth as much as the first ones, and fit. -/
def Sheds (parts shed : Nat × Nat) : Prop :=
  Fits shed ∧ worth shed = worth parts

theorem sheds_div {digits scale places : Nat} (fits : Fits (digits, scale + places))
    (divisible : digits % tenPow places = 0) :
    Sheds (digits, scale + places) (digits / tenPow places, scale) := by
  obtain ⟨digits_lt, scale_le⟩ := fits
  dsimp only at digits_lt scale_le
  refine ⟨⟨Nat.lt_of_le_of_lt (Nat.div_le_self _ _) digits_lt, by
    dsimp only; omega⟩, ?_⟩
  have exponent :
    maxScale - scale = places + (maxScale - (scale + places)) := by omega
  show digits / tenPow places * tenPow (maxScale - scale) =
    digits * tenPow (maxScale - (scale + places))
  rw [exponent, tenPow_add, ← Nat.mul_assoc,
    Nat.div_mul_cancel (Nat.dvd_of_mod_eq_zero divisible)]

theorem Sheds.refl {parts : Nat × Nat} (fits : Fits parts) : Sheds parts parts :=
  ⟨fits, rfl⟩

theorem Sheds.trans {parts shed more : Nat × Nat} (first : Sheds parts shed)
    (second : Sheds shed more) :
    Sheds parts more :=
  ⟨second.1, second.2.trans first.2⟩

theorem sheds_dropOnce (places : Nat) {parts : Nat × Nat} (fits : Fits parts) :
    Sheds parts (dropOnce places parts) := by
  obtain ⟨digits, scale⟩ := parts
  unfold dropOnce
  split
  · rename_i drops
    obtain ⟨fewer, rfl⟩ := Nat.exists_eq_add_of_le' drops.2.1
    dsimp only
    rw [Nat.add_sub_cancel]
    exact sheds_div fits drops.2.2
  · exact .refl fits

theorem sheds_dropEights {digits scale : Nat} (fits : Fits (digits, scale)) :
    Sheds (digits, scale) (dropEights digits scale) := by
  fun_induction dropEights digits scale with
  | case1 digits scale drops ih =>
    have first := sheds_div fits drops.2
    exact first.trans (ih first.1)
  | case2 digits scale keeps => exact .refl fits
  | case3 digits scale few => exact .refl fits

theorem sheds_dropGroups {digits scale : Nat} (fits : Fits (digits, scale)) :
    Sheds (digits, scale) (dropGroups digits scale) := by
  have eights := sheds_dropEights fits
  have fours := eights.trans (sheds_dropOnce 4 eights.1)
  have twos := fours.trans (sheds_dropOnce 2 fours.1)
  exact twos.trans (sheds_dropOnce 1 twos.1)

/-! ## Quotients -/

/-- The division of two mantissas starts with the exact ratio of the decimals. -/
theorem developed_start {a b : Decimal} (ne : b.mantissa ≠ 0) :
    Developed a.units.natAbs b.units.natAbs b.mantissa
      { digits := a.mantissa / b.mantissa, rest := a.mantissa % b.mantissa
        scale := (a.scale : Int) - b.scale, inexact := false } where
  rest_lt := Nat.mod_lt _ (Nat.pos_of_ne_zero ne)
  scale_le := by
    have le : a.scale ≤ maxScale := a.scale_le
    dsimp only
    omega
  ratio := by
    have left_le : a.scale ≤ maxScale := a.scale_le
    have right_le : b.scale ≤ maxScale := b.scale_le
    have exponent :
        (maxScale - ((a.scale : Int) - b.scale)).toNat + (maxScale - b.scale) =
        maxScale - a.scale + maxScale := by omega
    dsimp only
    rw [natAbs_units, natAbs_units, Nat.mul_comm (a.mantissa / b.mantissa),
      Nat.div_add_mod, Nat.mul_comm b.mantissa, ← Nat.mul_assoc,
      Nat.mul_assoc a.mantissa, ← tenPow_add, exponent, tenPow_add,
      ← Nat.mul_assoc]

theorem sign_signed {q : Bool} {n : Nat} (pos : 0 < n) :
    (signed q n).sign = signed q 1 := by
  cases q with
  | true => exact Int.sign_eq_neg_one_of_neg (by show -(n : Int) < 0; omega)
  | false => exact Int.sign_eq_one_of_pos (by show 0 < (n : Int); omega)

/-- A quotient that is settled is the decimal of its parts, with fewer zeros if
it is inexact. -/
theorem settled_units {num den : Nat} {q : Quotient} (negative : Bool)
    (settled : Settled num den (some q)) :
    ((match if q.inexact then dropGroups q.digits q.scale.toNat
      else (q.digits, q.scale.toNat) with
      | (mantissa, scale) =>
        ofParts? (negative && mantissa != 0) mantissa scale).map units) =
      (nearest num den).map (signed negative) := by
  obtain ⟨fits, nonneg, high, nearest_eq⟩ := settled
  have start : Fits (q.digits, q.scale.toNat) := ⟨fits, by dsimp only; omega⟩
  have sheds : Sheds (q.digits, q.scale.toNat)
      (if q.inexact then dropGroups q.digits q.scale.toNat
        else (q.digits, q.scale.toNat)) := by
    split
    · exact sheds_dropGroups start
    · exact .refl start
  generalize (if q.inexact then dropGroups q.digits q.scale.toNat
    else (q.digits, q.scale.toNat)) = parts at sheds
  obtain ⟨mantissa, scale⟩ := parts
  obtain ⟨⟨mantissa_lt, scale_le⟩, same⟩ := sheds
  dsimp only
  rw [ofParts?_units _ mantissa_lt scale_le, same, nearest_eq, Option.map_some]
  cases zero : mantissa != 0 with
  | true => rw [Bool.and_true]
  | false =>
    have nothing : worth (mantissa, scale) = 0 := by
      unfold worth
      rw [bne_eq_false_iff_eq.mp zero, Nat.zero_mul]
    rw [← same, nothing, signed_zero, signed_zero]

/-- A quotient is the decimal nearest to the exact quotient. -/
theorem units_div (a : Decimal) {b : Decimal} (ne : b.mantissa ≠ 0) :
    (a.div b).map units = nearestTo (a.units * b.units.sign) b.units.natAbs := by
  have den_pos : 0 < b.units.natAbs :=
    Int.natAbs_pos.mpr fun zero => ne (units_eq_zero.mp zero)
  unfold div
  split
  · rename_i zero
    rw [units_eq_zero.mpr zero, Int.zero_mul,
      nearestTo_eq_zero (by simpa using den_pos)]
    rfl
  · rename_i nonzero
    have digits_pos : 0 < a.mantissa * tenPow (maxScale - a.scale) :=
      Nat.mul_pos (Nat.pos_of_ne_zero nonzero) (tenPow_pos _)
    have product : a.units * b.units.sign =
        signed (a.negative ^^ b.negative) a.units.natAbs := by
      show signed _ _ * (signed _ _).sign = _
      rw [sign_signed (Nat.mul_pos (Nat.pos_of_ne_zero ne) (tenPow_pos _)),
        signed_mul_signed, Nat.mul_one, natAbs_units]
    have fits : a.mantissa / b.mantissa < capacity :=
      Nat.lt_of_le_of_lt (Nat.div_le_self _ _) a.mantissa_lt
    have settled :=
      develop_settled den_pos ((maxScale - ((a.scale : Int) - b.scale)).toNat + 1)
      (developed_start (a := a) ne) fits (Nat.lt_succ_self _)
    unfold nearestTo
    rw [product, natAbs_signed, natAbs_units a,
      signed_neg digits_pos, ← natAbs_units a]
    dsimp only
    generalize develop _ _ _ = outcome at settled
    cases outcome with
    | none =>
      have nothing : nearest a.units.natAbs b.units.natAbs = none := settled
      rw [nothing]
      rfl
    | some q => exact settled_units _ settled

end FieldExpr.Decimal
