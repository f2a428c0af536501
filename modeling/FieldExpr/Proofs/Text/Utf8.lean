import FieldExpr.Proofs.Text.Digits
import Mathlib.Tactic.SplitIfs

/-!
# Text as bytes

The bytes of a text in UTF-8. A character below 128 is one byte of its own
value, and every byte of another character is at least 128, so a reader of bytes
never mistakes a part of a character for a delimiter. Texts are in the order of
their bytes (`utf8_lt_iff`).
-/

namespace FieldExpr.Text

/-- The bytes of a text. -/
def utf8 (text : List Char) : List UInt8 :=
  text.flatMap String.utf8EncodeChar

@[simp]
theorem utf8_nil : utf8 [] = [] := rfl

theorem utf8_cons (c : Char) (rest : List Char) :
    utf8 (c :: rest) = String.utf8EncodeChar c ++ utf8 rest := rfl

theorem utf8_append (front rest : List Char) :
    utf8 (front ++ rest) = utf8 front ++ utf8 rest :=
  List.flatMap_append

theorem utf8EncodeChar_of_lt {c : Char} (lt : c.toNat < 128) :
    String.utf8EncodeChar c = [UInt8.ofNat c.toNat] := by
  have small : c.val.toNat ≤ 0x7f := Nat.le_of_lt_succ lt
  unfold String.utf8EncodeChar
  rw [if_pos small]
  rfl

theorem toNat_ofNat_byte {n : Nat} (lt : n < 256) : (UInt8.ofNat n).toNat = n := by
  rw [UInt8.toNat_ofNat']
  exact Nat.mod_eq_of_lt lt

/-- The bytes of a character above 127 are above 127. -/
theorem le_of_mem_utf8EncodeChar {c : Char} (le : 128 ≤ c.toNat) {b : UInt8}
    (mem : b ∈ String.utf8EncodeChar c) : 128 ≤ b.toNat := by
  have large : ¬ c.val.toNat ≤ 0x7f := Nat.not_le.mpr le
  unfold String.utf8EncodeChar at mem
  rw [if_neg large] at mem
  split at mem
  · simp only [List.mem_cons, List.not_mem_nil, or_false] at mem
    rcases mem with rfl | rfl <;> (rw [toNat_ofNat_byte (by omega)]; omega)
  · split at mem
    · simp only [List.mem_cons, List.not_mem_nil, or_false] at mem
      rcases mem with rfl | rfl | rfl <;> (rw [toNat_ofNat_byte (by omega)]; omega)
    · simp only [List.mem_cons, List.not_mem_nil, or_false] at mem
      rcases mem with rfl | rfl | rfl | rfl
        <;> (rw [toNat_ofNat_byte (by omega)]; omega)

/-- The bytes of a string are those of its characters, and stand for it. -/
theorem fromUTF8?_utf8 (s : String) :
    String.fromUTF8? ⟨(utf8 s.toList).toArray⟩ = some s := by
  have bytes : (⟨(utf8 s.toList).toArray⟩ : ByteArray) = s.toByteArray := by
    rw [← String.utf8Encode_toList]
    refine ByteArray.ext ?_
    exact List.data_toByteArray.symm
  rw [bytes]
  unfold String.fromUTF8?
  rw [dif_pos s.isValidUTF8]
  rfl

/-- A digit is one byte. -/
theorem utf8EncodeChar_digitChar {d : Nat} (lt : d < 10) :
    String.utf8EncodeChar (Nat.digitChar d) = [UInt8.ofNat (48 + d)] := by
  have table : ∀ d < 10, String.utf8EncodeChar (Nat.digitChar d) =
    [UInt8.ofNat (48 + d)] := by decide
  exact table d lt

/-! ## The order of texts -/

/-- The bytes of a lesser character come before those of a greater one,
whatever follows. -/
theorem utf8EncodeChar_lt {c d : Char} (less : c < d) (s t : List UInt8) :
    String.utf8EncodeChar c ++ s < String.utf8EncodeChar d ++ t := by
  have less : c.val.toNat < d.val.toNat := less
  have valid : d.val.toNat < 0x110000 := by
    rcases d.valid with low | ⟨_, high⟩
    · have low : d.val.toNat < 0xd800 := low
      omega
    · exact high
  have byte : ∀ {x y : Nat} {s t : List UInt8}, x < 256 → y < 256 → x ≤ y →
      (x = y → s < t) →
      UInt8.ofNat x :: s < UInt8.ofNat y :: t := by
    intro x y s t left right le rest
    refine List.cons_lt_cons_iff.mpr ?_
    rw [UInt8.lt_iff_toNat_lt, ← UInt8.toNat_inj, toNat_ofNat_byte left,
      toNat_ofNat_byte right]
    rcases Nat.eq_or_lt_of_le le with same | less
    · exact .inr ⟨same, rest same⟩
    · exact .inl less
  unfold String.utf8EncodeChar
  dsimp only
  generalize c.val.toNat = m at less
  generalize d.val.toNat = n at less valid
  -- A longer sequence begins with a greater byte, and in sequences of one
  -- length the first difference decides.
  split_ifs <;> simp only [List.cons_append, List.nil_append] <;>
    repeat refine byte (by omega) (by omega) (by omega) fun _ => ?_
  all_goals omega

theorem utf8_lt {a b : List Char} (less : a < b) : utf8 a < utf8 b := by
  induction a generalizing b with
  | nil =>
    cases b with
    | nil => exact absurd less (List.not_lt_nil _)
    | cons d b =>
      obtain ⟨first, rest, bytes⟩ :=
        List.exists_cons_of_ne_nil (String.utf8EncodeChar_ne_nil (c := d))
      rw [utf8_nil, utf8_cons, bytes]
      exact List.nil_lt_cons _ _
  | cons c a ih =>
    cases b with
    | nil => exact absurd less (List.not_lt_nil _)
    | cons d b =>
      rw [utf8_cons, utf8_cons]
      rcases List.cons_lt_cons_iff.mp less with first | ⟨rfl, rest⟩
      · exact utf8EncodeChar_lt first _ _
      · exact List.append_left_lt (ih rest)

/-- Texts are in the order of their bytes. -/
theorem utf8_lt_iff {a b : String} : utf8 a.toList < utf8 b.toList ↔ a < b := by
  constructor
  · intro less
    refine String.not_le.mp fun le => ?_
    rcases Decidable.em (b < a) with greater | notGreater
    · exact List.lt_asymm less (utf8_lt (String.lt_iff.mp greater))
    · have same : a = b := String.le_antisymm (String.not_lt.mp notGreater) le
      rw [same] at less
      exact List.lt_irrefl _ less
  · exact fun less => utf8_lt (String.lt_iff.mp less)

end FieldExpr.Text
