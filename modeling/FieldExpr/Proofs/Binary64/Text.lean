import FieldExpr.Binary64.Text
import FieldExpr.Proofs.Binary64.Shortest
import FieldExpr.Proofs.Decimal.Text

/-!
# The text of a double as a decimal

The text of a double has its shortest digits, in plain or in scientific
notation. Read as a decimal, both give these digits in their places
(`ofText?_text`).
-/

namespace FieldExpr.Binary64

open Text (continued digits natural spelled)

variable {m k : ℕ}

/-- Plain notation of digits that reach behind the point. -/
theorem plainText_eq (behind : 0 < k) :
    ∃ whole row : List ℕ, whole ≠ [] ∧ row.length = k ∧
    (∀ d ∈ whole ++ row, d < 10) ∧ continued 0 (whole ++ row) = m ∧
    plainText (natural m) ((natural m).length - 1 - k) =
      spelled whole ++ '.' :: spelled row := by
  rw [Text.length_natural]
  have digit : ∀ d ∈ digits m, d < 10 := fun _ mem => Text.lt_of_mem_digits mem
  have value : continued 0 (digits m) = m := Text.continued_digits m
  have some_digit := List.length_pos_iff.mpr (Text.digits_ne_nil m)
  rw [Text.natural_eq]
  generalize digits m = all at *
  unfold plainText
  rcases Nat.lt_or_ge k all.length with inside | outside
  · have sign : ¬ (all.length : ℤ) - 1 - k < 0 := by omega
    rw [if_neg sign]
    have places : ((all.length : ℤ) - 1 - k).toNat + 1 = all.length - k := by omega
    rw [places]
    refine ⟨all.take (all.length - k), all.drop (all.length - k), ?_, ?_,
      ?_, ?_, ?_⟩
    · refine List.ne_nil_of_length_pos ?_
      rw [List.length_take]
      omega
    · rw [List.length_drop]
      omega
    · rwa [List.take_append_drop]
    · rwa [List.take_append_drop]
    · have nonempty : ((spelled all).drop (all.length - k)).isEmpty = false := by
        rw [List.isEmpty_eq_false_iff, ne_eq, List.drop_eq_nil_iff, spelled,
          List.length_map]
        omega
      have filled : all.length - k - (spelled all).length = 0 := by
        rw [spelled, List.length_map]
        omega
      dsimp only
      rw [nonempty, if_neg Bool.false_ne_true, filled, List.replicate_zero,
        List.append_nil]
      simp only [spelled, List.map_take, List.map_drop]
  · have sign : (all.length : ℤ) - 1 - k < 0 := by omega
    rw [if_pos sign]
    have zeros : (-((all.length : ℤ) - 1 - k) - 1).toNat = k - all.length := by
      omega
    rw [zeros]
    refine ⟨[0], List.replicate (k - all.length) 0 ++ all, List.cons_ne_nil _ _,
      ?_, ?_, ?_, ?_⟩
    · rw [List.length_append, List.length_replicate]
      omega
    · intro d mem
      simp only [List.mem_append, List.mem_singleton, List.mem_replicate] at mem
      rcases mem with rfl | ⟨_, rfl⟩ | mem
      · decide
      · decide
      · exact digit d mem
    · rw [Text.continued_append, Text.continued_append, Text.continued_zeros]
      show continued (0 * _) all = m
      rw [Nat.zero_mul, value]
    · simp [spelled]

/-- The digits behind the point of scientific notation, where there are any. -/
def pointed (row : List ℕ) : List Char :=
  if row = [] then [] else '.' :: spelled row

/-- Scientific notation of digits that start far behind the point. -/
theorem scientificText_eq (m : ℕ) {places : ℕ} (pos : 0 < places) :
    ∃ d row, digits m = d :: row ∧
    scientificText (natural m) (-places) = Nat.digitChar d :: pointed row ++
      'e' :: '-' :: natural places := by
  obtain ⟨d, row, front⟩ := List.exists_cons_of_ne_nil (Text.digits_ne_nil m)
  refine ⟨d, row, front, ?_⟩
  rw [Text.natural_eq, front]
  unfold scientificText
  have sign : (-places : ℤ) < 0 := by omega
  have exponent : (-places : ℤ).natAbs = places := by omega
  rw [if_pos sign, exponent]
  cases row <;> rfl

/-! ## Reading -/

variable (negative : Bool)

/-- A sign, or none. -/
def signText : List Char :=
  if negative then ['-'] else []

/-- The base of scientific notation is the decimal of the digits with one of
them before the point. -/
theorem readPlain?_base {d : ℕ} {row : List ℕ} (front : digits m = d :: row)
    (pos : 0 < m) (fits : m < Decimal.capacity)
    (places : row.length ≤ Decimal.maxScale) :
    Decimal.readPlain? (signText negative ++ Nat.digitChar d :: pointed row) =
      Decimal.ofParts? negative m row.length := by
  have digit : ∀ d' ∈ d :: row, d' < 10 :=
    fun _ mem => Text.lt_of_mem_digits (front ▸ mem)
  have value : continued 0 (d :: row) = m := front ▸ Text.continued_digits m
  have scanned :
      Decimal.scanPlain 0 0 false false (Nat.digitChar d :: pointed row) =
      some (m, row.length) := by
    cases row with
    | nil =>
      have plain := Decimal.scanPlain_digits digit (List.cons_ne_nil _ _)
        (by rw [value]; exact fits)
      rwa [value] at plain
    | cons next row =>
      have point := @Decimal.scanPlain_point [d] (next :: row) digit
        (List.cons_ne_nil _ _)
        (by rw [List.singleton_append, value]; exact fits) places
      rwa [List.singleton_append, value] at point
  have nonzero : (m != 0) = true := bne_iff_ne.mpr (Nat.pos_iff_ne_zero.mp pos)
  refine (Decimal.readPlain?_of_scan negative (digit d List.mem_cons_self)
    scanned).trans ?_
  rw [nonzero, Bool.and_true]

/-- The base of scientific notation has no exponent mark in it. -/
theorem unmarked_base {d : ℕ} {row : List ℕ} (digit : ∀ d' ∈ d :: row, d' < 10) :
    ∀ c ∈ signText negative ++ Nat.digitChar d :: pointed row, c ≠ 'e' ∧
    c ≠ 'E' := by
  intro c mem
  rcases List.mem_append.mp mem with sign | mem
  · cases negative with
    | true =>
      rw [List.mem_singleton.mp sign]
      decide
    | false => cases sign
  · rcases List.mem_cons.mp mem with rfl | fraction
    · exact Text.digitChar_ne_mark (digit d List.mem_cons_self)
    · unfold pointed at fraction
      split at fraction
      · cases fraction
      · rcases List.mem_cons.mp fraction with rfl | mem
        · decide
        · obtain ⟨d', found, rfl⟩ := List.mem_map.mp mem
          exact Text.digitChar_ne_mark (digit d' (List.mem_cons_of_mem _ found))

/-- Digits on both sides of the point, in plain notation. -/
theorem ofText?_plainText (pos : 0 < m) (fits : m < Decimal.capacity)
    (behind : 0 < k) (places : k ≤ Decimal.maxScale) :
    Decimal.ofText?
        (signText negative ++ plainText (natural m) ((natural m).length - 1 - k)) =
      Decimal.ofParts? negative m k := by
  obtain ⟨whole, row, front, length, digit, value, plain⟩ :=
    @plainText_eq m k behind
  obtain ⟨d, whole, rfl⟩ := List.exists_cons_of_ne_nil front
  have scanned :=
    Decimal.scanPlain_point digit front (by rw [value]; exact fits)
      (by rw [length]; exact places)
  rw [value, length] at scanned
  have nonzero : (m != 0) = true := bne_iff_ne.mpr (Nat.pos_iff_ne_zero.mp pos)
  have read : Decimal.readPlain?
      (signText negative ++ (spelled (d :: whole) ++ '.' :: spelled row)) =
      Decimal.ofParts? (negative && m != 0) m k :=
    Decimal.readPlain?_of_scan negative (digit d List.mem_cons_self) scanned
  rw [nonzero, Bool.and_true] at read
  have parts : Decimal.ofParts? negative m k =
    some ⟨negative, m, k, fits, places⟩ := dif_pos ⟨fits, places⟩
  unfold Decimal.ofText?
  rw [plain, read, parts]
  rfl

/-- Digits that start behind the point, in scientific notation. -/
theorem ofText?_scientificText (pos : 0 < m) (fits : m < Decimal.capacity)
    (few : (natural m).length ≤ k) (places : k ≤ Decimal.maxScale) :
    Decimal.ofText?
        (signText negative ++
          scientificText (natural m) ((natural m).length - 1 - k)) =
      Decimal.ofParts? negative m k := by
  rw [Text.length_natural] at few ⊢
  obtain ⟨e, exponent⟩ : ∃ e : ℕ, ((digits m).length : ℤ) - 1 - k = -e :=
    ⟨k + 1 - (digits m).length, by omega⟩
  obtain ⟨d, row, front, scientific⟩ := @scientificText_eq m e (by omega)
  have all : (digits m).length = row.length + 1 := by rw [front, List.length_cons]
  have room : row.length ≤ Decimal.maxScale := by omega
  have base := readPlain?_base negative front pos fits room
  have parts : Decimal.ofParts? negative m row.length =
    some ⟨negative, m, row.length, fits, room⟩ := dif_pos ⟨fits, room⟩
  rw [parts] at base
  have unmarked :=
    unmarked_base negative fun d' mem => Text.lt_of_mem_digits (front ▸ mem)
  have moved : row.length + e = k := by omega
  have read := Decimal.ofText?_scientific unmarked base
    (show row.length + e ≤ _ by rw [moved]; exact places)
  rw [moved] at read
  rw [exponent, scientific, ← read, List.append_assoc]

/-- The text of a double whose shortest digits reach behind the point is
that decimal. -/
theorem ofText?_text {x : Binary64}
    (shortest : x.shortest = ⟨m, (natural m).length - 1 - k⟩)
    (nonzero : x.isZero = false) (pos : 0 < m) (small : m < 0x10000000000000)
    (behind : 0 < k) (places : k ≤ Decimal.maxScale) :
    Decimal.ofText? x.text = Decimal.ofParts? x.negative m k := by
  have few : (digits m).length ≤ 16 :=
    Text.length_digits_le (Nat.lt_trans small (by decide)) (by decide)
  have fits : m < Decimal.capacity := Nat.lt_trans small (by decide)
  have written : x.text = signText x.negative ++
      (if -5 ≤ ((natural m).length : ℤ) - 1 - k ∧
        ((natural m).length : ℤ) - 1 - k ≤ 15
        then plainText (natural m) ((natural m).length - 1 - k)
        else scientificText (natural m) ((natural m).length - 1 - k)) := by
    unfold text
    rw [nonzero, if_neg Bool.false_ne_true, shortest]
    cases x.negative <;> rfl
  rw [written]
  split
  · exact ofText?_plainText x.negative pos fits behind places
  · rename_i far
    refine ofText?_scientificText x.negative pos fits ?_ places
    rw [Text.length_natural] at far ⊢
    omega

end FieldExpr.Binary64
