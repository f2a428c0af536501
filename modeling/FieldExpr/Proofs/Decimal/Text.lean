import FieldExpr.Decimal.Text
import FieldExpr.Proofs.Decimal.Value
import FieldExpr.Proofs.Text.Digits

/-!
# Reading the text of a decimal

Reading takes the text of a decimal back to it, scale and all; only the sign of
a zero gets lost. Every mantissa on the way is a front part of the last one, so
nothing is rounded off.
-/

namespace FieldExpr.Decimal

open Text (digits continued digit? spelled natural unsigned?)

/-- Digits of the whole part are taken while the mantissa fits. -/
theorem scanPlain_whole {row : List Nat} (digit : ∀ d ∈ row, d < 10)
    {mantissa : Nat} {seen : Bool} {rest : List Char}
    (fits : continued mantissa row < capacity) :
    scanPlain mantissa 0 false seen (spelled row ++ rest) =
      scanPlain (continued mantissa row) 0 false (seen || !row.isEmpty) rest := by
  induction row generalizing mantissa seen with
  | nil => simp [spelled, continued]
  | cons d row ih =>
    have small : 10 * mantissa + d < capacity :=
      Nat.lt_of_le_of_lt (Text.le_continued (10 * mantissa + d) row) fits
    show scanPlain mantissa 0 false seen
      (Nat.digitChar d :: (spelled row ++ rest)) = _
    conv => lhs; unfold scanPlain
    rw [Text.digit?_digitChar (digit d List.mem_cons_self)]
    simp only [small, maxScale, Nat.zero_lt_succ, and_self, ↓reduceIte,
      Bool.false_eq_true]
    rw [ih (fun d mem => digit d (List.mem_cons_of_mem _ mem)) fits]
    simp [continued]

/-- Digits of the fraction are taken while the mantissa and the places fit. -/
theorem scanPlain_fraction {row : List Nat} (digit : ∀ d ∈ row, d < 10)
    {mantissa scale : Nat} {seen : Bool}
    (fits : continued mantissa row < capacity)
    (places : scale + row.length ≤ maxScale) (some_digit : seen = true ∨ row ≠ []) :
    scanPlain mantissa scale true seen (spelled row) =
      some (continued mantissa row, scale + row.length) := by
  induction row generalizing mantissa scale seen with
  | nil =>
    have seen : seen = true := some_digit.resolve_right (by simp)
    simp [spelled, scanPlain, continued, seen]
  | cons d row ih =>
    have small : 10 * mantissa + d < capacity :=
      Nat.lt_of_le_of_lt (Text.le_continued (10 * mantissa + d) row) fits
    rw [List.length_cons] at places
    show scanPlain mantissa scale true seen (Nat.digitChar d :: spelled row) = _
    unfold scanPlain
    rw [Text.digit?_digitChar (digit d List.mem_cons_self)]
    have room : scale < maxScale := by omega
    simp only [small, room, and_self, ↓reduceIte]
    rw [ih (fun d mem => digit d (List.mem_cons_of_mem _ mem)) fits (by omega)
      (.inl rfl)]
    simp only [continued, List.foldl_cons, List.length_cons]
    congr 2
    omega

/-- Padded digits are zeros and then the digits. -/
theorem padded_eq (width n : Nat) :
    padded width n =
      spelled (List.replicate (width - (digits n).length) 0 ++ digits n) := by
  unfold padded
  rw [Text.natural_eq]
  simp [spelled]

/-- The padded fraction has as many digits as the scale, and so continues the
whole part to the mantissa. -/
theorem padded_row (mantissa : Nat) {scale : Nat} (pos : 0 < scale) :
    ∃ row, padded scale (mantissa % tenPow scale) = spelled row ∧
      row.length = scale ∧
      continued (mantissa / tenPow scale) row = mantissa ∧ ∀ d ∈ row, d < 10 := by
  have fraction : mantissa % tenPow scale < tenPow scale :=
    Nat.mod_lt _ (tenPow_pos _)
  have width : (digits (mantissa % tenPow scale)).length ≤ scale :=
    Text.length_digits_le fraction pos
  have length :
      (List.replicate (scale - (digits (mantissa % tenPow scale)).length) 0 ++
      digits (mantissa % tenPow scale)).length = scale := by
    rw [List.length_append, List.length_replicate]
    omega
  refine ⟨_, padded_eq _ _, length, ?_, ?_⟩
  · rw [Text.continued_eq, length, Text.continued_append, Text.continued_zeros,
      Nat.zero_mul, Text.continued_digits]
    exact Nat.div_add_mod' _ _
  · intro d mem
    rcases List.mem_append.mp mem with zero | mem
    · rw [(List.mem_replicate.mp zero).2]
      decide
    · exact Text.lt_of_mem_digits mem

/-- Digits without a point. -/
theorem scanPlain_digits {row : List Nat} (digit : ∀ d ∈ row, d < 10)
    (nonempty : row ≠ []) (fits : continued 0 row < capacity) :
    scanPlain 0 0 false false (spelled row) = some (continued 0 row, 0) := by
  have scanned := @scanPlain_whole row digit 0 false [] fits
  have seen : row.isEmpty = false := by simpa using nonempty
  rw [List.append_nil, seen] at scanned
  rw [scanned]
  simp [scanPlain]

/-- Digits on both sides of a point. -/
theorem scanPlain_point {whole row : List Nat}
    (digit : ∀ d ∈ whole ++ row, d < 10) (nonempty : whole ≠ [])
    (fits : continued 0 (whole ++ row) < capacity)
    (places : row.length ≤ maxScale) :
    scanPlain 0 0 false false (spelled whole ++ '.' :: spelled row) =
      some (continued 0 (whole ++ row), row.length) := by
  rw [Text.continued_append] at fits ⊢
  have seen : whole.isEmpty = false := by simpa using nonempty
  have point : scanPlain (continued 0 whole) 0 false (false || !false)
      ('.' :: spelled row) =
      scanPlain (continued 0 whole) 0 true true (spelled row) := by
    conv => lhs; unfold scanPlain
    rfl
  rw [scanPlain_whole (fun d mem => digit d (List.mem_append_left _ mem))
      (Nat.lt_of_le_of_lt (Text.le_continued _ row) fits), seen, point,
    scanPlain_fraction (fun d mem => digit d (List.mem_append_right _ mem)) fits
      (by omega) (.inl rfl), Nat.zero_add]

/-- The digits of a decimal without its sign, read from the start. -/
theorem scanPlain_text (mantissa scale : Nat) (lt : mantissa < capacity)
    (le : scale ≤ maxScale) :
    scanPlain 0 0 false false (natural (mantissa / tenPow scale) ++
      (if scale = 0 then []
        else '.' :: padded scale (mantissa % tenPow scale))) = some (mantissa,
      scale) := by
  have first : continued 0 (digits (mantissa / tenPow scale)) =
    mantissa / tenPow scale := Text.continued_digits _
  have digit : ∀ d ∈ digits (mantissa / tenPow scale), d < 10 :=
    fun _ mem => Text.lt_of_mem_digits mem
  have nonempty := Text.digits_ne_nil (mantissa / tenPow scale)
  rw [Text.natural_eq]
  split
  · rename_i zero
    subst zero
    have whole : mantissa / tenPow 0 = mantissa := Nat.div_one mantissa
    rw [whole] at first digit nonempty ⊢
    rw [List.append_nil,
      scanPlain_digits digit nonempty (by rw [first]; exact lt), first]
  · rename_i ne
    obtain ⟨row, padding, length, value, fraction⟩ :=
      padded_row mantissa (Nat.pos_of_ne_zero ne)
    have total : continued 0 (digits (mantissa / tenPow scale) ++ row) =
        mantissa := by
      rw [Text.continued_append, first, value]
    have all : ∀ d ∈ digits (mantissa / tenPow scale) ++ row, d < 10 := by
      intro d mem
      rcases List.mem_append.mp mem with mem | mem
      · exact digit d mem
      · exact fraction d mem
    rw [padding, scanPlain_point all nonempty (by rw [total]; exact lt)
      (by rw [length]; exact le), total, length]

/-- What the digits are read as decides, behind an optional sign. -/
theorem readPlain?_of_scan (negative : Bool) {d mantissa scale : Nat}
    {rest : List Char} (lt : d < 10)
    (scanned : scanPlain 0 0 false false (Nat.digitChar d :: rest) =
      some (mantissa, scale)) :
    readPlain? ((if negative then ['-'] else []) ++ Nat.digitChar d :: rest) =
      ofParts? (negative && mantissa != 0) mantissa scale := by
  cases negative with
  | true =>
    show (scanPlain 0 0 false false (Nat.digitChar d :: rest)).bind _ = _
    rw [scanned]
    rfl
  | false =>
    show readPlain? (Nat.digitChar d :: rest) = _
    have sign := Text.digitChar_ne lt
    unfold readPlain?
    split
    rename_i split
    split at split <;> simp_all

/-- A decimal other than a zero with a sign is read back from its text. -/
theorem readPlain?_text (d : Decimal)
    (unsigned : d.mantissa = 0 → d.negative = false) :
    readPlain? d.text = some d := by
  have scanned := scanPlain_text d.mantissa d.scale d.mantissa_lt d.scale_le
  have sign : (d.negative && d.mantissa != 0) = d.negative := by
    by_cases zero : d.mantissa = 0
    · rw [unsigned zero, Bool.false_and]
    · simp [zero]
  obtain ⟨a, row, front⟩ :=
    List.exists_cons_of_ne_nil (Text.digits_ne_nil (d.mantissa / tenPow d.scale))
  have lt : a < 10 := Text.lt_of_mem_digits (front ▸ List.mem_cons_self)
  unfold text
  rw [List.append_assoc]
  rw [Text.natural_eq, front] at scanned ⊢
  refine (readPlain?_of_scan d.negative lt scanned).trans ?_
  rw [sign]
  unfold ofParts?
  rw [dif_pos ⟨d.mantissa_lt, d.scale_le⟩]

/-! ## Scientific notation -/

theorem onlyTail_of_mark {text : List Char} (mark : 'e' ∈ text) :
    onlyTail text = false := by
  rw [onlyTail, List.all_eq_false]
  exact ⟨'e', mark, by decide⟩

/-- No plain number has an exponent mark in it. -/
theorem scanPlain_eq_none {text : List Char} (mark : 'e' ∈ text)
    {mantissa scale : Nat} {fraction seen : Bool} :
    scanPlain mantissa scale fraction seen text = none := by
  induction text generalizing mantissa scale fraction seen with
  | nil => cases mark
  | cons c rest ih =>
    unfold scanPlain
    by_cases here : c = 'e'
    · subst here
      rfl
    · have later : 'e' ∈ rest :=
        (List.mem_cons.mp mark).resolve_left fun same => here same.symm
      have tail := onlyTail_of_mark later
      cases digit? c with
      | some digit =>
        dsimp only
        rw [tail, Bool.and_false, if_neg Bool.false_ne_true]
        split
        · exact ih later
        · rfl
      | none =>
        dsimp only
        rw [tail, if_neg Bool.false_ne_true, ih later, ih later]
        simp

theorem readPlain?_eq_none {text : List Char} (mark : 'e' ∈ text) :
    readPlain? text = none := by
  unfold readPlain?
  split
  rename_i negative digits split
  have later : 'e' ∈ digits := by
    split at split <;> simp_all
  rw [scanPlain_eq_none later]
  rfl

/-- A base and a negative exponent: the point moves to the left. -/
theorem ofText?_scientific {base : List Char} {d : Decimal}
    (plain : ∀ c ∈ base, c ≠ 'e' ∧ c ≠ 'E') (read : readPlain? base = some d)
    {places : Nat} (fits : d.scale + places ≤ maxScale) :
    ofText? (base ++ 'e' :: '-' :: natural places) =
      ofParts? d.negative d.mantissa (d.scale + places) := by
  have unmarked : ∀ c ∈ base, (!(c == 'e' || c == 'E')) = true := by
    intro c mem
    have other := plain c mem
    simp [other]
  have places_le : places ≤ maxScale := Nat.le_trans (Nat.le_add_left _ _) fits
  have exponent : unsigned? 0x100000000 (natural places) = some places := by
    refine Text.unsigned?_natural (Nat.lt_of_le_of_lt places_le ?_)
    decide
  have marked : 'e' ∈ base ++ 'e' :: '-' :: natural places :=
    List.mem_append_right _ List.mem_cons_self
  unfold ofText?
  rw [readPlain?_eq_none marked]
  show readScientific? (base ++ 'e' :: '-' :: natural places) = _
  unfold readScientific?
  dsimp only
  rw [List.takeWhile_append_of_pos unmarked, List.dropWhile_append_of_pos unmarked]
  have mark : (!('e' == 'e' || 'e' == 'E')) = false := rfl
  rw [List.takeWhile_cons_of_neg (by rw [mark]; exact Bool.false_ne_true),
    List.dropWhile_cons_of_neg (by rw [mark]; exact Bool.false_ne_true),
    List.append_nil, read]
  show (unsigned? 0x100000000 (natural places)).bind d.shiftLeft = _
  rw [exponent]
  show shiftLeft d places = _
  unfold shiftLeft
  rw [if_neg (Nat.not_lt.mpr places_le), if_pos fits]

/-- The text of a normal decimal stands for it. -/
theorem IsNormal.ofText?_text {d : Decimal} (normal : d.IsNormal) :
    ofText? d.text = some d := by
  unfold ofText?
  rw [readPlain?_text d fun zero => (normal.zero zero).1]
  rfl

end FieldExpr.Decimal
