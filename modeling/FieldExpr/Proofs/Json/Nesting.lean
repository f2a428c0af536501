import FieldExpr.Json.Nesting
import FieldExpr.Proofs.Json.Reading

/-!
# The nesting of written documents

A scan of the text of a document finds exactly the nesting of the document: it
passes a limit that the document keeps to, and reports one level more than any
other limit (`nestingExcess_write`). Nothing in a string counts, whatever
brackets, quotes and backslashes the string holds, because the writer escapes
what would end it.
-/

namespace FieldExpr.Json

open Text (utf8 spelled digits)

/-! ## Nesting of documents -/

mutual

/-- The number of containers on the longest path into a document. -/
def nesting : Json → Nat
  | .array items => 1 + nestingItems items
  | .object entries => 1 + nestingEntries entries
  | _ => 0

/-- The greatest nesting among items. -/
def nestingItems : List Json → Nat
  | [] => 0
  | item :: rest => max item.nesting (nestingItems rest)

/-- The greatest nesting among the values of entries. -/
def nestingEntries : List (String × Json) → Nat
  | [] => 0
  | (_, value) :: rest => max value.nesting (nestingEntries rest)

end

theorem nestingItems_le_iff {items : List Json} {n : Nat} :
    nestingItems items ≤ n ↔ ∀ item ∈ items, item.nesting ≤ n := by
  induction items with
  | nil => simp [nestingItems]
  | cons item rest ih => rw [nestingItems, Nat.max_le, ih, List.forall_mem_cons]

theorem nestingEntries_le_iff {entries : List (String × Json)} {n : Nat} :
    nestingEntries entries ≤ n ↔ ∀ entry ∈ entries, entry.2.nesting ≤ n := by
  induction entries with
  | nil => simp [nestingEntries]
  | cons entry rest ih =>
    show max entry.2.nesting (nestingEntries rest) ≤ n ↔ _
    rw [Nat.max_le, ih, List.forall_mem_cons]

/-- An object nests one level deeper than what it is made from. -/
theorem nesting_ofEntries_le {entries : List (String × Json)} {n : Nat}
    (values : ∀ entry ∈ entries, entry.2.nesting ≤ n) :
    (ofEntries entries).nesting ≤ 1 + n := by
  have inner : nestingEntries (ordered entries) ≤ n :=
    nestingEntries_le_iff.mpr fun entry mem => values entry (mem_of_mem_ordered mem)
  exact Nat.add_le_add_left inner 1

/-- What a name finds in an object lies at least one level below it. -/
theorem nesting_lt_of_get? {document member : Json} {name : String}
    (found : document.get? name = some member) :
    member.nesting < document.nesting := by
  cases document with
  | object entries =>
    have le : member.nesting ≤ nestingEntries entries :=
      nestingEntries_le_iff.mp (Nat.le_refl _) _ (mem_of_lookup found)
    show member.nesting < 1 + nestingEntries entries
    omega
  | _ => cases found

/-! ## Scans -/

namespace NestingScan

variable {limit depth : Nat} {b : UInt8} {bytes tail : List UInt8}

/-- The scan between tokens, inside `depth` containers. -/
def outside (depth : Nat) : NestingScan := { depth }

/-- The scan inside a string. -/
def inside (depth : Nat) : NestingScan := { depth, inString := true }

/-- A byte that does not lead past the limit. -/
theorem excess_cons {s next : NestingScan} (step : s.step b = next)
    (le : next.depth ≤ limit) :
    excess limit s (b :: bytes) = excess limit next bytes := by
  rw [excess, step, if_neg (Nat.not_lt.mpr le)]

/-- Bytes that do not move the scan. -/
theorem excess_still {s : NestingScan} (le : s.depth ≤ limit)
    (still : ∀ b ∈ bytes, s.step b = s) :
    excess limit s (bytes ++ tail) = excess limit s tail := by
  induction bytes with
  | nil => rfl
  | cons b bytes ih =>
    rw [List.cons_append, excess_cons (still b List.mem_cons_self) le,
      ih fun b mem => still b (List.mem_cons_of_mem _ mem)]

/-- A byte between tokens that is neither a quote nor a bracket. -/
def Silent (b : UInt8) : Prop :=
  b ≠ 0x22 ∧ b ≠ 0x7b ∧ b ≠ 0x5b ∧ b ≠ 0x7d ∧ b ≠ 0x5d

instance : DecidablePred Silent := fun _ => inferInstanceAs (Decidable (_ ∧ _))

theorem step_outside (silent : Silent b) :
    (outside depth).step b = outside depth := by
  obtain ⟨quote, brace, bracket, brace', bracket'⟩ := silent
  unfold step outside
  rw [if_neg (by simp), if_neg quote, if_neg (by simp [brace, bracket]),
    if_neg (by simp [brace', bracket'])]

theorem step_inside (plain : PlainByte b) :
    (inside depth).step b = inside depth := by
  obtain ⟨quote, backslash, _⟩ := plain
  unfold step inside
  rw [if_pos rfl, if_neg (by simp), if_neg backslash, if_neg quote]

/-! ## Strings -/

/-- A backslash takes the byte behind it along. -/
theorem excess_escape (le : depth ≤ limit) :
    excess limit (inside depth) (0x5c :: b :: tail) =
      excess limit (inside depth) tail := by
  have backslash : (inside depth).step 0x5c =
    { depth, inString := true, escaped := true } := rfl
  have escaped :
    NestingScan.step { depth, inString := true, escaped := true } b =
    inside depth := rfl
  rw [excess_cons backslash le, excess_cons escaped le]

theorem plainByte_hexDigit {x : Nat} (lt : x < 16) :
    PlainByte (UInt8.ofNat (Nat.digitChar x).toNat) := by
  have table : ∀ x < 16, UInt8.ofNat (Nat.digitChar x).toNat ≠ 0x22 ∧
      UInt8.ofNat (Nat.digitChar x).toNat ≠ 0x5c ∧
      ¬ UInt8.ofNat (Nat.digitChar x).toNat < 0x20 := by decide
  exact table x lt

/-- The escape of a character does not end the string. -/
theorem excess_escapeChar (le : depth ≤ limit) (c : Char) :
    excess limit (inside depth) (utf8 (escapeChar c) ++ tail) =
      excess limit (inside depth) tail := by
  unfold escapeChar
  split
  · exact excess_escape le
  · exact excess_escape le
  · exact excess_escape le
  · exact excess_escape le
  · exact excess_escape le
  · exact excess_escape le
  · exact excess_escape le
  · rename_i quote backslash _ _ _ _ _
    split
    · rename_i control
      have high := (hexDigit?_digitChar (x := c.toNat / 16) (by omega)).1
      have low := (hexDigit?_digitChar (x := c.toNat % 16) (by omega)).1
      simp only [utf8, List.flatMap_cons, List.flatMap_nil, high, low,
        List.append_nil]
      show excess limit (inside depth) (0x5c :: 0x75 :: ([0x30, 0x30,
        UInt8.ofNat (Nat.digitChar (c.toNat / 16)).toNat,
          UInt8.ofNat (Nat.digitChar (c.toNat % 16)).toNat] ++ tail)) = _
      rw [excess_escape le]
      refine excess_still le fun b mem => step_inside ?_
      simp only [List.mem_cons, List.not_mem_nil, or_false] at mem
      rcases mem with rfl | rfl | rfl | rfl
      · exact plainByte_hexDigit (x := 0) (by decide)
      · exact plainByte_hexDigit (x := 0) (by decide)
      · exact plainByte_hexDigit (by omega)
      · exact plainByte_hexDigit (by omega)
    · rename_i control
      rw [Text.utf8_cons, Text.utf8_nil, List.append_nil]
      exact excess_still le fun b mem =>
        step_inside (plainByte_of_mem quote backslash control mem)

theorem excess_writeChars (le : depth ≤ limit) (chars rest : List Char) :
    excess limit (inside depth) (utf8 (writeChars chars rest)) =
      excess limit (inside depth) (utf8 rest) := by
  induction chars with
  | nil => rfl
  | cons c chars ih => rw [writeChars, Text.utf8_append, excess_escapeChar le, ih]

/-- A written string does not count. -/
theorem excess_writeString (le : depth ≤ limit) (s : String) (rest : List Char) :
    excess limit (outside depth) (utf8 (writeString s rest)) =
      excess limit (outside depth) (utf8 rest) := by
  have opens : (outside depth).step 0x22 = inside depth := rfl
  have closes : (inside depth).step 0x22 = outside depth := rfl
  show excess limit (outside depth)
    (0x22 :: utf8 (writeChars s.toList ('"' :: rest))) = _
  rw [excess_cons opens le, excess_writeChars le]
  show excess limit (inside depth) (0x22 :: utf8 rest) = _
  rw [excess_cons closes le]

/-! ## Other tokens -/

theorem silent_of_mem_integer {n : Int} (mem : b ∈ utf8 (Text.integer n)) :
    Silent b := by
  obtain ⟨c, char, byte⟩ := List.mem_flatMap.mp mem
  have digit : c ∈ Text.natural n.natAbs → Silent b := by
    intro char
    rw [Text.natural_eq] at char
    obtain ⟨d, row, rfl⟩ := List.mem_map.mp char
    have lt := Text.lt_of_mem_digits row
    rw [Text.utf8EncodeChar_digitChar lt, List.mem_singleton] at byte
    have table : ∀ d < 10, Silent (UInt8.ofNat (48 + d)) := by decide
    exact byte ▸ table d lt
  unfold Text.integer at char
  split at char
  · rcases List.mem_cons.mp char with rfl | rest
    · rw [List.mem_singleton.mp (show b ∈ [0x2d] from byte)]
      decide
    · exact digit rest
  · exact digit char

theorem silent_of_all {text : List Char}
    (all : ((utf8 text).all fun b => decide (Silent b)) = true) :
    ∀ b ∈ utf8 text, Silent b := by
  intro b mem
  exact of_decide_eq_true (List.all_eq_true.mp all b mem)

theorem excess_silent (text : List Char) (le : depth ≤ limit)
    (silent : ∀ b ∈ utf8 text, Silent b) (rest : List Char) :
    excess limit (outside depth) (utf8 (text ++ rest)) =
      excess limit (outside depth) (utf8 rest) := by
  rw [Text.utf8_append]
  exact excess_still le fun b mem => step_outside (silent b mem)

/-- A bracket opens one more level, if there is room for it. -/
theorem excess_open (le : depth ≤ limit) (opens : b = 0x7b ∨ b = 0x5b) :
    excess limit (outside depth) (b :: bytes) =
      if depth + 1 ≤ limit then excess limit (outside (depth + 1)) bytes
      else some (limit + 1) := by
  have step : (outside depth).step b = outside (depth + 1) := by
    rcases opens with rfl | rfl <;> rfl
  split
  · rename_i room
    exact excess_cons step room
  · rename_i full
    rw [excess, step]
    show (if limit < depth + 1 then some (depth + 1) else _) = _
    rw [if_pos (Nat.lt_of_not_le full)]
    congr 1
    omega

/-- A bracket closes the level that is open. -/
theorem excess_close (le : depth ≤ limit) (closes : b = 0x7d ∨ b = 0x5d) :
    excess limit (outside (depth + 1)) (b :: bytes) =
      excess limit (outside depth) bytes := by
  have step : (outside (depth + 1)).step b = outside depth := by
    rcases closes with rfl | rfl <;> rfl
  exact excess_cons step le

/-! ## Documents -/

/-- What a container holds is one level deeper. -/
theorem excess_container {opening closing : Char} {inner : Nat}
    (text : List Char → List Char) {rest : List Char}
    (le : depth ≤ limit)
    (opens : String.utf8EncodeChar opening = [0x7b] ∨
      String.utf8EncodeChar opening = [0x5b])
    (closes : String.utf8EncodeChar closing = [0x7d] ∨
      String.utf8EncodeChar closing = [0x5d])
    (contents : depth + 1 ≤ limit →
      excess limit (outside (depth + 1)) (utf8 (text (closing :: rest))) =
        if depth + 1 + inner ≤ limit then
        excess limit (outside (depth + 1)) (utf8 (closing :: rest))
        else some (limit + 1)) :
    excess limit (outside depth) (utf8 (opening :: text (closing :: rest))) =
      if depth + (1 + inner) ≤ limit then
      excess limit (outside depth) (utf8 rest) else some (limit + 1) := by
  have opened : excess limit (outside depth)
      (utf8 (opening :: text (closing :: rest))) =
      if depth + 1 ≤ limit then
      excess limit (outside (depth + 1)) (utf8 (text (closing :: rest)))
      else some (limit + 1) := by
    rw [Text.utf8_cons]
    rcases opens with byte | byte <;> rw [byte, List.singleton_append]
    · exact excess_open le (.inl rfl)
    · exact excess_open le (.inr rfl)
  have closed : excess limit (outside (depth + 1)) (utf8 (closing :: rest)) =
      excess limit (outside depth) (utf8 rest) := by
    rw [Text.utf8_cons]
    rcases closes with byte | byte <;> rw [byte, List.singleton_append]
    · exact excess_close le (.inl rfl)
    · exact excess_close le (.inr rfl)
  rw [opened]
  by_cases room : depth + 1 ≤ limit
  · rw [if_pos room, contents room, closed, Nat.add_assoc]
  · rw [if_neg room, if_neg (by omega)]

/-- A text without brackets has room within any limit. -/
theorem excess_flat {j : Json} {text : List Char} {rest : Option Nat}
    (flat : j.nesting = 0) (le : depth ≤ limit)
    (scan : excess limit (outside depth) (utf8 text) = rest) :
    excess limit (outside depth) (utf8 text) = if depth + j.nesting ≤ limit then
    rest else some (limit + 1) := by
  rw [flat, Nat.add_zero, if_pos le, scan]

/-- Two texts in a row keep to the limit when both do. -/
theorem ite_le_max {α : Type} (m n : Nat) (x y : α) :
    (if depth + m ≤ limit then (if depth + n ≤ limit then x else y) else y) =
      if depth + max m n ≤ limit then x else y := by
  rw [← ite_and]
  exact if_congr (by omega) rfl rfl

end NestingScan

open NestingScan

variable {limit : Nat}

mutual

/-- The scan of a written document goes on behind it exactly when there is room
for its nesting. -/
theorem excess_write :
    (j : Json) → j.Normal → ∀ {depth : Nat} (rest : List Char), depth ≤ limit →
    excess limit (outside depth) (utf8 (j.write rest)) =
      if depth + j.nesting ≤ limit then excess limit (outside depth) (utf8 rest)
      else some (limit + 1)
  | .null, _, _, rest, le =>
    excess_flat rfl le
      (excess_silent ['n', 'u', 'l', 'l'] le (silent_of_all rfl) rest)
  | .boolean true, _, _, rest, le =>
    excess_flat rfl le
      (excess_silent ['t', 'r', 'u', 'e'] le (silent_of_all rfl) rest)
  | .boolean false, _, _, rest, le =>
    excess_flat rfl le
      (excess_silent ['f', 'a', 'l', 's', 'e'] le (silent_of_all rfl) rest)
  | .number (.integer _ _ _), _, _, rest, le =>
    excess_flat rfl le
      (excess_silent _ le (fun _ mem => silent_of_mem_integer mem) rest)
  | .number (.double _), normal, _, _, _ => normal.elim
  | .string s, _, _, rest, le =>
    excess_flat rfl le (excess_writeString le s rest)
  | .array items, normal, _, _, le =>
    excess_container (writeItems true items) le (.inr rfl) (.inr rfl) fun room =>
      excess_writeItems items normal true _ room
  | .object entries, normal, _, _, le =>
    excess_container (writeEntries true entries) le (.inl rfl)
        (.inl rfl) fun room =>
      excess_writeEntries entries normal.2 true _ room

/-- `excess_write` on items. -/
theorem excess_writeItems :
    (items : List Json) → NormalItems items → ∀ (first : Bool) {depth : Nat}
    (rest : List Char), depth ≤ limit →
    excess limit (outside depth) (utf8 (writeItems first items rest)) =
      if depth + nestingItems items ≤ limit then
      excess limit (outside depth) (utf8 rest) else some (limit + 1)
  | [], _, _, _, rest, le => by
    rw [nestingItems, Nat.add_zero, if_pos le]
    rfl
  | item :: items, normal, first, depth, rest, le => by
    have text : excess limit (outside depth)
        (utf8 (item.write (writeItems false items rest))) =
        if depth + nestingItems (item :: items) ≤ limit then
        excess limit (outside depth) (utf8 rest)
        else some (limit + 1) := by
      rw [excess_write item normal.1 _ le,
        excess_writeItems items normal.2 false rest le, ite_le_max, nestingItems]
    cases first with
    | true => exact text
    | false =>
      rw [← text]
      exact excess_silent [','] le (silent_of_all rfl) _

/-- `excess_write` on entries. -/
theorem excess_writeEntries :
    (entries : List (String × Json)) → NormalEntries entries → ∀ (first : Bool)
    {depth : Nat} (rest : List Char), depth ≤ limit →
    excess limit (outside depth) (utf8 (writeEntries first entries rest)) =
      if depth + nestingEntries entries ≤ limit then
      excess limit (outside depth) (utf8 rest) else some (limit + 1)
  | [], _, _, _, rest, le => by
    rw [nestingEntries, Nat.add_zero, if_pos le]
    rfl
  | (key, value) :: entries, normal, first, depth, rest, le => by
    have colon : ∀ rest, excess limit (outside depth) (utf8 (':' :: rest)) =
        excess limit (outside depth) (utf8 rest) :=
      excess_silent [':'] le (silent_of_all rfl)
    have text : excess limit (outside depth)
          (utf8 (writeString key
            (':' :: value.write (writeEntries false entries rest)))) =
        if depth + nestingEntries ((key, value) :: entries) ≤ limit then
        excess limit (outside depth) (utf8 rest)
        else some (limit + 1) := by
      rw [excess_writeString le, colon, excess_write value normal.1 _ le,
        excess_writeEntries entries normal.2 false rest le, ite_le_max,
        nestingEntries]
    cases first with
    | true => exact text
    | false =>
      rw [← text]
      exact excess_silent [','] le (silent_of_all rfl) _

end

/-- The scan of a document's text passes a limit exactly when the
document keeps to it. -/
theorem nestingExcess_write {j : Json} (normal : j.Normal) (limit : Nat) :
    nestingExcess limit (utf8 (j.write [])) = if j.nesting ≤ limit then none
    else some (limit + 1) := by
  have scan : excess limit (outside 0) (utf8 (j.write [])) =
      if 0 + j.nesting ≤ limit then none else some (limit + 1) :=
    excess_write j normal [] (Nat.zero_le _)
  rwa [Nat.zero_add] at scan

/-! ## Long texts -/

theorem NestingScan.depth_step_le (s : NestingScan) (b : UInt8) :
    (s.step b).depth ≤ s.depth + 1 := by
  unfold step
  repeat' split
  all_goals first
    | exact Nat.le_refl _
    | exact Nat.le_succ _
    | exact Nat.le_succ_of_le (Nat.sub_le _ _)

/-- A text has no more levels than bytes. -/
theorem NestingScan.excess_of_length {s : NestingScan} {bytes : List UInt8}
    (le : s.depth + bytes.length ≤ limit) : excess limit s bytes = none := by
  induction bytes generalizing s with
  | nil => rfl
  | cons b bytes ih =>
    rw [List.length_cons] at le
    have step := s.depth_step_le b
    rw [excess_cons rfl (by omega)]
    exact ih (by omega)

/-- A document nests no deeper than its text is long. -/
theorem nesting_le_length {j : Json} (normal : j.Normal) :
    j.nesting ≤ (utf8 (j.write [])).length := by
  have scan := nestingExcess_write normal (utf8 (j.write [])).length
  have none : nestingExcess (utf8 (j.write [])).length (utf8 (j.write [])) = none :=
    NestingScan.excess_of_length (Nat.le_of_eq (Nat.zero_add _))
  rw [none] at scan
  split at scan
  · assumption
  · cases scan

end FieldExpr.Json
