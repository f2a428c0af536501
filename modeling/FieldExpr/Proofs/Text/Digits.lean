import FieldExpr.Power
import FieldExpr.Text.Digits

/-!
# Digits of natural numbers

The text of a number is the row of its digits, each as a character. Readers take
such a row one digit at a time, so what they need is the value of a row that
continues a number.
-/

namespace FieldExpr.Text

/-- The digits of a number, the first one not zero unless the number is. -/
def digits (n : Nat) : List Nat :=
  if n < 10 then [n] else digits (n / 10) ++ [n % 10]

/-- The number that a row of digits continues from `value`. -/
def continued (value : Nat) (row : List Nat) : Nat :=
  row.foldl (fun value digit => 10 * value + digit) value

/-- A row of digits as characters. -/
def spelled (row : List Nat) : List Char :=
  row.map Nat.digitChar

theorem natural_eq (n : Nat) : natural n = spelled (digits n) := by
  induction n using Nat.strongRecOn with
  | ind n ih =>
    unfold natural digits
    split
    · exact Nat.toDigits_of_lt_base ‹_›
    · rw [Nat.toDigits_of_base_le (by decide) (by omega)]
      show natural (n / 10) ++ _ = _
      rw [ih (n / 10) (by omega)]
      simp [spelled]

theorem lt_of_mem_digits {n d : Nat} (mem : d ∈ digits n) : d < 10 := by
  induction n using Nat.strongRecOn with
  | ind n ih =>
    unfold digits at mem
    split at mem
    · rw [List.mem_singleton.mp mem]
      assumption
    · rcases List.mem_append.mp mem with front | last
      · exact ih (n / 10) (by omega) front
      · rw [List.mem_singleton.mp last]
        omega

theorem digits_ne_nil (n : Nat) : digits n ≠ [] := by
  unfold digits
  split <;> simp

/-- The first digit of a number above zero is not zero. -/
theorem head_digits {n : Nat} (pos : 0 < n) :
    ∃ d rest, digits n = d :: rest ∧ 0 < d ∧ d < 10 := by
  induction n using Nat.strongRecOn with
  | ind n ih =>
    unfold digits
    split
    · exact ⟨n, [], rfl, pos, by assumption⟩
    · obtain ⟨d, rest, front, first, lt⟩ := ih (n / 10) (by omega) (by omega)
      rw [front]
      exact ⟨d, rest ++ [n % 10], rfl, first, lt⟩

theorem length_natural (n : Nat) : (natural n).length = (digits n).length := by
  rw [natural_eq]
  exact List.length_map Nat.digitChar

theorem length_digits_le {n places : Nat} (lt : n < tenPow places)
    (pos : 0 < places) :
    (digits n).length ≤ places := by
  rw [← length_natural]
  exact (Nat.length_toDigits_le_iff (by decide) pos).mpr lt

theorem continued_append (value : Nat) (front rest : List Nat) :
    continued value (front ++ rest) = continued (continued value front) rest :=
  List.foldl_append

theorem continued_digits (n : Nat) : continued 0 (digits n) = n := by
  induction n using Nat.strongRecOn with
  | ind n ih =>
    unfold digits
    split
    · simp [continued]
    · rw [continued_append, ih (n / 10) (by omega)]
      show 10 * (n / 10) + n % 10 = n
      omega

/-- A row that continues a number moves it by as many places. -/
theorem continued_eq (value : Nat) (row : List Nat) :
    continued value row = value * tenPow row.length + continued 0 row := by
  induction row generalizing value with
  | nil => simp [continued, tenPow]
  | cons d row ih =>
    show continued (10 * value + d) row = _ + continued (10 * 0 + d) row
    rw [ih (10 * value + d), ih (10 * 0 + d), List.length_cons, tenPow_succ,
      Nat.mul_zero, Nat.zero_add, Nat.add_mul, Nat.mul_comm 10 value,
      Nat.mul_assoc value 10, Nat.mul_comm 10 (tenPow row.length),
      Nat.add_assoc]

theorem le_continued (value : Nat) (row : List Nat) :
    value ≤ continued value row := by
  rw [continued_eq]
  exact Nat.le_trans (Nat.le_mul_of_pos_right _ (tenPow_pos _))
    (Nat.le_add_right _ _)

theorem continued_zeros (value count : Nat) :
    continued value (List.replicate count 0) = value * tenPow count := by
  induction count generalizing value with
  | zero => simp [continued, tenPow]
  | succ count ih =>
    show continued (10 * value + 0) (List.replicate count 0) = _
    rw [ih, tenPow_succ, Nat.add_zero, Nat.mul_comm 10 value, Nat.mul_assoc,
      Nat.mul_comm 10]

/-! ## Characters -/

theorem digit?_digitChar {d : Nat} (lt : d < 10) :
    digit? (Nat.digitChar d) = some d := by
  have table : ∀ d < 10, digit? (Nat.digitChar d) = some d := by decide
  exact table d lt

/-- A digit is none of the other characters that stand in numbers. -/
theorem digitChar_ne {d : Nat} (lt : d < 10) :
    Nat.digitChar d ≠ '-' ∧ Nat.digitChar d ≠ '+' := by
  have table : ∀ d < 10, Nat.digitChar d ≠ '-' ∧ Nat.digitChar d ≠ '+' := by decide
  exact table d lt

/-- A digit is no exponent mark. -/
theorem digitChar_ne_mark {d : Nat} (lt : d < 10) :
    Nat.digitChar d ≠ 'e' ∧ Nat.digitChar d ≠ 'E' := by
  have table : ∀ d < 10, Nat.digitChar d ≠ 'e' ∧ Nat.digitChar d ≠ 'E' := by decide
  exact table d lt

/-! ## Words -/

theorem continueNatural_spelled {row : List Nat} (digit : ∀ d ∈ row, d < 10)
    (value : Nat) :
    continueNatural value (spelled row) = some (continued value row) := by
  induction row generalizing value with
  | nil => rfl
  | cons d row ih =>
    show (digit? (Nat.digitChar d)).bind
      (fun d => continueNatural (10 * value + d) (spelled row)) = _
    rw [digit?_digitChar (digit d List.mem_cons_self)]
    exact ih (fun d mem => digit d (List.mem_cons_of_mem _ mem)) (10 * value + d)

/-- A word of digits is read as its number, if that is below the bound. -/
theorem unsigned?_natural {n bound : Nat} (lt : n < bound) :
    unsigned? bound (natural n) = some n := by
  obtain ⟨d, row, split⟩ := List.exists_cons_of_ne_nil (digits_ne_nil n)
  have digit : ∀ d' ∈ d :: row, d' < 10 :=
    fun _ mem => lt_of_mem_digits (split ▸ mem)
  have value : continueNatural 0 (Nat.digitChar d :: spelled row) = some n := by
    have read := continueNatural_spelled digit 0
    rwa [← split, continued_digits, split] at read
  have sign := (digitChar_ne (digit d List.mem_cons_self)).2
  rw [natural_eq, split]
  show unsigned? bound (Nat.digitChar d :: spelled row) = _
  unfold unsigned?
  split
  · rename_i plus
    exact absurd (List.cons.inj plus).1 sign
  · dsimp only
    rw [value]
    simp [lt]

end FieldExpr.Text
