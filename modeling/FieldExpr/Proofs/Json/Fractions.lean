import FieldExpr.Proofs.Binary64.Text
import FieldExpr.Proofs.Json.Reading

/-!
# Numbers with a fraction

A number with a point becomes a double in two steps: its digits make a whole
number, which is divided by a power of ten. With few digits both are doubles, so
that the quotient is rounded only once (`doubleOf?_eq`).
-/

namespace FieldExpr.Json

open Text (continued digits natural spelled utf8)

/-! ## Doubles -/

/-- A power of ten that is a double. -/
theorem powerOfTen?_exact {k : ℕ} (le : k ≤ 22) :
    ∃ x, powerOfTen? k = some x ∧ x.absolute = (tenPow k : ℕ) := by
  have power : tenPow k = 5 ^ k * 2 ^ k := by
    rw [← mul_pow]
    rfl
  have bits : 5 ^ k < 0x20000000000000 := by
    calc 5 ^ k ≤ 5 ^ 22 := Nat.pow_le_pow_right (by decide) le
      _ < 0x20000000000000 := by norm_num
  unfold powerOfTen?
  rw [power]
  exact Binary64.ofNat?_exact (by positivity) bits (by omega)

/-- A division by a power of ten up to the greatest one is done in one step. -/
theorem scaleByTen_eq {x power : Binary64} {k : ℕ} (behind : 0 < k)
    (le : k ≤ 308) (nonzero : x.isZero = false)
    (ofPower : powerOfTen? k = some power) : scaleByTen x (-k) = x.div? power := by
  have sign : ¬ (0 : ℤ) ≤ -k := by omega
  have places : (-(-(k : ℤ))).toNat = k := by omega
  have rounds : (k - 1) / 308 = 0 := Nat.div_eq_of_lt (by omega)
  unfold scaleByTen
  rw [if_neg sign]
  dsimp only
  rw [places, rounds, Nat.mul_zero, Nat.sub_zero, ofPower]
  show (if x.isZero then some x else x.div? power) = _
  rw [nonzero, if_neg Bool.false_ne_true]

/-- Numbers of few digits are neither tiny nor huge. -/
theorem log_quotient_bounds {m k : ℕ} (pos : 0 < m)
    (small : m < 0x10000000000000) (le : k ≤ 22) :
    -80 ≤ Int.log 2 ((m : ℚ) / 10 ^ k) ∧ Int.log 2 ((m : ℚ) / 10 ^ k) < 52 := by
  have quotient_pos : (0 : ℚ) < m / 10 ^ k := by positivity
  have least : ((2 : ℕ) : ℚ) ^ (-80 : ℤ) ≤ m / 10 ^ k := by
    rw [le_div_iff₀ (by positivity)]
    calc ((2 : ℕ) : ℚ) ^ (-80 : ℤ) * 10 ^ k
          ≤ ((2 : ℕ) : ℚ) ^ (-80 : ℤ) * 10 ^ 22 := by
          gcongr
          norm_num
      _ ≤ 1 := by norm_num
      _ ≤ m := by exact_mod_cast pos
  have most : (m : ℚ) / 10 ^ k < ((2 : ℕ) : ℚ) ^ (52 : ℤ) := by
    rw [div_lt_iff₀ (by positivity)]
    calc (m : ℚ) < ((2 : ℕ) : ℚ) ^ (52 : ℤ) := by
          norm_num
          exact_mod_cast small
      _ ≤ ((2 : ℕ) : ℚ) ^ (52 : ℤ) * 10 ^ k :=
        le_mul_of_one_le_right (by positivity) (one_le_pow₀ (by norm_num))
  exact ⟨(Int.zpow_le_iff_le_log (b := 2) (by decide) quotient_pos).mp least,
    (Int.lt_zpow_iff_log_lt (b := 2) (by decide) quotient_pos).mp most⟩

/-- A number of few digits behind the point is rounded once. -/
theorem doubleOf?_eq (negative : Bool) {m k : ℕ} (pos : 0 < m)
    (small : m < 0x10000000000000) (behind : 0 < k) (le : k ≤ 22) :
      ∃ x : Binary64, doubleOf? negative m (-k) = some (.double x) ∧
      x.negative = negative ∧
      0x10000000000000 ≤ x.significand ∧ x.ReadsBack (m * 10 ^ (-k : ℤ)) := by
  obtain ⟨whole, ofNat, wholeValue⟩ :=
    @Binary64.ofNat?_exact m 0 pos (by omega) (by omega)
  obtain ⟨power, ofPower, powerValue⟩ := powerOfTen?_exact le
  rw [pow_zero, mul_one] at ofNat wholeValue
  have whole_pos : 0 < whole.absolute := by
    rw [wholeValue]
    exact_mod_cast pos
  have power_pos : 0 < power.absolute := by
    rw [powerValue]
    exact_mod_cast tenPow_pos k
  obtain ⟨num, den, num_pos, den_pos, value, quotient⟩ :=
    Binary64.div?_eq whole_pos power_pos
  rw [wholeValue, powerValue, cast_tenPow] at value
  obtain ⟨low, high⟩ := log_quotient_bounds pos small le
  rw [← value] at low high
  obtain ⟨x, rounded, bits, reads⟩ :=
    @Binary64.readsBack_of_ofFraction? (whole.negative ^^ power.negative) num
      den num_pos den_pos (by omega) (by omega)
  have nonzero : whole.isZero = false :=
    beq_eq_false_iff_ne.mpr (Binary64.significand_ne_zero whole_pos)
  refine ⟨{ x with negative }, ?_, rfl, bits, ?_⟩
  · unfold doubleOf?
    rw [ofNat]
    show (scaleByTen whole (-k)).bind
      (fun x => some (Number.double { x with negative })) = _
    rw [scaleByTen_eq behind (by omega) nonzero ofPower, quotient, rounded]
    rfl
  · have same : (m : ℚ) * 10 ^ (-k : ℤ) = num / den := by
      rw [value, zpow_neg, zpow_natCast, div_eq_mul_inv]
    rw [same]
    exact ⟨reads.low, reads.high, reads.ends⟩

/-! ## Reading -/

theorem foldl_takeFraction {row : List ℕ} {value : ℕ} {exponent : ℤ}
    (fits : continued value row < 0x10000000000000000) :
    row.foldl Significand.takeFraction ⟨value, exponent, false⟩ =
      ⟨continued value row, exponent - row.length, false⟩ := by
  induction row generalizing value exponent with
  | nil =>
    show (⟨value, exponent, false⟩ : Significand) = ⟨value, exponent - 0, false⟩
    rw [Int.sub_zero]
  | cons d row ih =>
    have small : 10 * value + d < 0x10000000000000000 :=
      Nat.lt_of_le_of_lt (Text.le_continued (10 * value + d) row) fits
    have step : Significand.takeFraction ⟨value, exponent, false⟩ d =
        ⟨10 * value + d, exponent - 1, false⟩ := by
      unfold Significand.takeFraction
      rw [if_neg (by simp only [Bool.false_eq_true, false_or]; omega)]
    rw [List.foldl_cons, step, ih fits, List.length_cons]
    show (⟨continued value (d :: row), exponent - 1 - row.length,
      false⟩ : Significand) = _
    congr 1
    push_cast
    ring

/-- A numeral with a fraction stands for a double. -/
theorem numberOf?_fraction (negative : Bool) {whole row : List ℕ}
    (behind : row ≠ [])
    (fits : continued 0 (whole ++ row) < 0x10000000000000000)
    (places : row.length ≤ 28) :
    numberOf? {} { negative, whole := whole.reverse, fraction := row.reverse } =
      doubleOf? negative (continued 0 (whole ++ row)) (-row.length) := by
  show Numeral.number?
    { negative, whole := whole.reverse.reverse, fraction := row.reverse.reverse } = _
  rw [List.reverse_reverse, List.reverse_reverse]
  rw [Text.continued_append] at fits ⊢
  have fraction : row.isEmpty = false := by simpa using behind
  have exponent : clamp32 (0 - row.length + (digitsValue [] : ℕ)) =
      -row.length := by
    show max (-0x80000000) (min (0 - (row.length : ℤ) + (0 : ℕ)) 0x7fffffff) =
      -row.length
    omega
  unfold Numeral.number?
  dsimp only
  rw [fraction, Bool.false_and, Bool.false_and, if_neg Bool.false_ne_true,
    foldl_takeWhole (Nat.lt_of_le_of_lt (Text.le_continued _ row) fits)]
  dsimp only
  rw [foldl_takeFraction fits, if_neg (by decide), if_neg Bool.false_ne_true,
    exponent]

/-- More digits of a fraction, up to the end of the text. -/
theorem readFrom_fraction {row : List ℕ} (digit : ∀ d ∈ row, d < 10)
    {n : Numeral} {parsed : Number}
    (number : numberOf? {} { n with fraction := row.reverse ++ n.fraction } =
      some parsed) :
    readFrom {} ⟨.number .fraction n, []⟩ (utf8 (spelled row)) =
      .ok (.number parsed, []) := by
  induction row generalizing n with
  | nil =>
    show (do return (← State.finish {} ⟨.number .fraction n, []⟩, [])) = _
    have number : numberOf? {} n = some parsed := number
    have complete : NumberPhase.fraction.complete = true := rfl
    unfold State.finish
    dsimp only
    rw [if_pos complete, number]
    rfl
  | cons d row ih =>
    have lt := digit d List.mem_cons_self
    have step : State.step {} ⟨.number .fraction n, []⟩ (UInt8.ofNat (48 + d)) =
        .more ⟨.number .fraction { n with fraction := d :: n.fraction }, []⟩ := by
      show inNumber {} .fraction n [] (UInt8.ofNat (48 + d)) = _
      unfold inNumber takeByte
      rw [digitOf?_digit lt]
    show readFrom {} _ (utf8 (Nat.digitChar d :: spelled row)) = _
    rw [Text.utf8_cons, Text.utf8EncodeChar_digitChar lt, List.singleton_append,
      readFrom_more step]
    refine ih (fun d mem => digit d (List.mem_cons_of_mem _ mem)) ?_
    rwa [List.reverse_cons, List.append_assoc] at number

/-- A point and the fraction behind it. -/
theorem readFrom_point {phase : NumberPhase}
    (whole : phase = .zero ∨ phase = .whole) {n : Numeral} {row : List ℕ}
    (behind : row ≠ []) (digit : ∀ d ∈ row, d < 10) {parsed : Number}
    (number : numberOf? {} { n with fraction := row.reverse ++ n.fraction } =
      some parsed) :
    readFrom {} ⟨.number phase n, []⟩ (utf8 ('.' :: spelled row)) =
      .ok (.number parsed, []) := by
  obtain ⟨d, row, rfl⟩ := List.exists_cons_of_ne_nil behind
  have lt := digit d List.mem_cons_self
  have point : State.step {} ⟨.number phase n, []⟩ 0x2e =
      .more ⟨.number .point n, []⟩ := by
    rcases whole with rfl | rfl <;> rfl
  have first : State.step {} ⟨.number .point n, []⟩ (UInt8.ofNat (48 + d)) =
      .more ⟨.number .fraction { n with fraction := d :: n.fraction }, []⟩ := by
    show inNumber {} .point n [] (UInt8.ofNat (48 + d)) = _
    unfold inNumber takeByte
    rw [digitOf?_digit lt]
  show readFrom {} _ (0x2e :: utf8 (Nat.digitChar d :: spelled row)) = _
  rw [readFrom_more point, Text.utf8_cons, Text.utf8EncodeChar_digitChar lt,
    List.singleton_append, readFrom_more first]
  refine readFrom_fraction (fun d mem => digit d (List.mem_cons_of_mem _ mem)) ?_
  rwa [List.reverse_cons, List.append_assoc] at number

/-- A text of digits on both sides of a point is the number of the digits,
divided by a power of ten. -/
theorem ofText?_fraction (negative : Bool) {w : ℕ} {row : List ℕ}
    (behind : row ≠ []) (digit : ∀ d ∈ row, d < 10)
    (fits : continued w row < 0x10000000000000000) (places : row.length ≤ 28)
    {parsed : Number}
    (number : doubleOf? negative (continued w row) (-row.length) = some parsed) :
    Number.ofText?
      ((if negative then ['-'] else []) ++ (natural w ++ '.' :: spelled row)) =
      some parsed := by
  have value : continued 0 (digits w ++ row) = continued w row := by
    rw [Text.continued_append, Text.continued_digits]
  have numeral :
      numberOf? {}
          { negative, whole := (digits w).reverse, fraction := row.reverse ++ [] } =
        some parsed := by
    rw [List.append_nil,
      numberOf?_fraction negative behind (by rw [value]; exact fits) places,
      value, number]
  have digits_zero : digits 0 = [0] := by
    unfold digits
    rfl
  have whole : read {}
      (((if negative then ['-'] else []) ++
        (natural w ++ '.' :: spelled row)).flatMap
      String.utf8EncodeChar) = .ok (.number parsed, []) := by
    cases negative with
    | true =>
      show readFrom {} ⟨.number .sign { negative := true }, []⟩
        (utf8 (natural w ++ '.' :: spelled row)) = _
      rcases Nat.eq_zero_or_pos w with rfl | pos
      · rw [digits_zero] at numeral
        exact readFrom_point (.inl rfl) behind digit numeral
      · rw [readFrom_wholePart pos fun _ => step_sign_digit]
        exact readFrom_point (.inr rfl) behind digit numeral
    | false =>
      show readFrom {} ⟨.value false, []⟩
        (utf8 (natural w ++ '.' :: spelled row)) = _
      rcases Nat.eq_zero_or_pos w with rfl | pos
      · rw [digits_zero] at numeral
        exact readFrom_point (.inl rfl) behind digit numeral
      · rw [readFrom_wholePart pos fun _ => step_value_digit false]
        exact readFrom_point (.inr rfl) behind digit numeral
  unfold Number.ofText?
  rw [whole]

end FieldExpr.Json
