import FieldExpr.Value.Text
import Mathlib.Data.List.Basic

/-!
# Line feeds in the text of a value

The text of a value shows strings quoted, with escapes for what would break a
line, and the names of fields as they are. So the names of its fields, at every
depth, are the only source of line feeds in it.
-/

namespace FieldExpr

namespace Text

theorem not_mem_toDigits {base : Nat} (two : 1 < base) (n : Nat) :
    '\n' ∉ Nat.toDigits base n := by
  induction n using Nat.strongRecOn with
  | _ n ih =>
    rcases Nat.lt_or_ge n base with small | large
    · rw [Nat.toDigits_of_lt_base small, List.mem_singleton]
      exact (Nat.digitChar_ne '\n' rfl).symm
    · rw [Nat.toDigits_of_base_le two large, List.mem_append,
        List.mem_singleton, not_or]
      exact ⟨ih _ (Nat.div_lt_self (by omega) two),
        (Nat.digitChar_ne '\n' rfl).symm⟩

theorem not_mem_natural (n : Nat) : '\n' ∉ natural n :=
  not_mem_toDigits (by decide) n

theorem not_mem_integer (n : Int) : '\n' ∉ integer n := by
  unfold integer
  split <;> simp [not_mem_natural]

theorem not_mem_truth (b : Bool) : '\n' ∉ truth b := by
  cases b <;> decide

theorem not_mem_quoteChar (c : Char) : '\n' ∉ quoteChar c := by
  unfold quoteChar
  split
  case h_7 _ _ _ feed _ _ _ =>
    split
    · simp [not_mem_toDigits]
    · simpa using Ne.symm feed
  all_goals decide

/-- Quoted text stays on its line, whatever the string. -/
theorem not_mem_quoted (s : String) : '\n' ∉ quoted s := by
  simp [quoted, not_mem_quoteChar]

/-! ## Names -/

/-- The number of line feeds in names. -/
def lineFeeds (names : List String) : Nat :=
  (names.flatMap String.toList).count '\n'

@[simp]
theorem lineFeeds_cons (name : String) (rest : List String) :
    lineFeeds (name :: rest) = name.toList.count '\n' + lineFeeds rest := by
  simp [lineFeeds]

@[simp]
theorem lineFeeds_append (first second : List String) :
    lineFeeds (first ++ second) = lineFeeds first + lineFeeds second := by
  simp [lineFeeds]

theorem lineFeeds_eq_zero_iff {names : List String} :
    lineFeeds names = 0 ↔ ∀ name ∈ names, '\n' ∉ name.toList := by
  simp only [lineFeeds, List.count_eq_zero, List.mem_flatMap, not_exists, not_and]

end Text

theorem Decimal.not_mem_text (d : Decimal) : '\n' ∉ d.text := by
  have sign : '\n' ∉ (if d.negative then ['-'] else []) := by split <;> decide
  have fraction : '\n' ∉ padded d.scale (d.mantissa % tenPow d.scale) := by
    simp [padded, List.mem_replicate, Text.not_mem_natural]
  unfold text
  split <;> simp_all [Text.not_mem_natural]

namespace Value

open Text (lineFeeds)

mutual

/-- The names of the fields in a value, at every depth, in the order in which
its text shows them. -/
def fieldNames : Value → List String
  | .sequence items => fieldNamesItems items
  | .record fields => fieldNamesFields fields
  | _ => []

/-- `fieldNames` of items. -/
def fieldNamesItems : List Value → List String
  | [] => []
  | v :: rest => v.fieldNames ++ fieldNamesItems rest

/-- `fieldNames` of fields. -/
def fieldNamesFields : List (String × Value) → List String
  | [] => []
  | (name, v) :: rest => name :: (v.fieldNames ++ fieldNamesFields rest)

end

mutual

/-- The line feeds in the text of a value are those in the names of its fields. -/
theorem count_text : ∀ v : Value, v.text.count '\n' = lineFeeds v.fieldNames
  | .unit => rfl
  | .boolean b => List.count_eq_zero.mpr (Text.not_mem_truth b)
  | .integer n => List.count_eq_zero.mpr (Text.not_mem_integer n.toInt)
  | .decimal d => List.count_eq_zero.mpr d.not_mem_text
  | .string s => List.count_eq_zero.mpr (Text.not_mem_quoted s)
  | .sequence items => by simp [text, fieldNames, count_textItems true items]
  | .record fields => by simp [text, fieldNames, count_textFields true fields]

theorem count_textItems (first : Bool) :
    ∀ items, (textItems first items).count '\n' = lineFeeds (fieldNamesItems items)
  | [] => rfl
  | v :: rest => by
    cases first <;> simp [textItems, fieldNamesItems, count_text v,
      count_textItems false rest]

theorem count_textFields (first : Bool) :
    ∀ fields, (textFields first fields).count '\n' =
      lineFeeds (fieldNamesFields fields)
  | [] => rfl
  | (name, v) :: rest => by
    cases first <;> simp [textFields, fieldNamesFields, count_text v,
      count_textFields false rest]

end

end Value

end FieldExpr
