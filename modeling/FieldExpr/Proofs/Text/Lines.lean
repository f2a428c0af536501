/-!
# Lines

A text of complete lines, each with a line feed at its end, is taken apart into
its lines. There are as many lines as line feeds, and lines without line feeds
of their own come back as they were put together.
-/

namespace FieldExpr.Text

/-- The lines of a text without their ends; none when the last line does not end. -/
def lines : List Char → Option (List (List Char))
  | [] => some []
  | c :: rest =>
    if c = '\n' then (lines rest).map ([] :: ·)
    else (lines rest).bind fun
      | [] => none
      | line :: later => some ((c :: line) :: later)

/-- A first line without line feeds is the first of the lines. -/
theorem lines_append {line : List Char} (unbroken : '\n' ∉ line)
    (rest : List Char) :
    lines (line ++ '\n' :: rest) = (lines rest).map (line :: ·) := by
  induction line with
  | nil => simp [lines]
  | cons c line ih =>
    have here : c ≠ '\n' := fun same => unbroken (same ▸ List.mem_cons_self)
    rw [List.cons_append, lines, if_neg here,
      ih fun mem => unbroken (List.mem_cons_of_mem c mem)]
    cases lines rest <;> rfl

/-- Lines without line feeds come back from their text. -/
theorem lines_flatMap {parts : List (List Char)}
    (unbroken : ∀ line ∈ parts, '\n' ∉ line) :
    lines (parts.flatMap (· ++ ['\n'])) = some parts := by
  induction parts with
  | nil => rfl
  | cons line later ih =>
    obtain ⟨here, after⟩ := List.forall_mem_cons.mp unbroken
    rw [List.flatMap_cons, List.append_assoc, List.singleton_append,
      lines_append here, ih after]
    rfl

/-- The lines make the text, and none of them has a line feed. -/
theorem flatMap_of_lines {text : List Char} {parts : List (List Char)}
    (split : lines text = some parts) :
    text = parts.flatMap (· ++ ['\n']) ∧ ∀ line ∈ parts, '\n' ∉ line := by
  induction text generalizing parts with
  | nil =>
    cases split
    exact ⟨rfl, by simp⟩
  | cons c rest ih =>
    rw [lines] at split
    split at split
    · next feed =>
      obtain ⟨later, after, rfl⟩ := Option.map_eq_some_iff.mp split
      obtain ⟨text, unbroken⟩ := ih after
      subst feed
      exact ⟨by simp [← text], by simpa using unbroken⟩
    · next other =>
      obtain ⟨found, after, here⟩ := Option.bind_eq_some_iff.mp split
      cases found with
      | nil => cases here
      | cons line later =>
        cases here
        obtain ⟨text, unbroken⟩ := ih after
        obtain ⟨first, others⟩ := List.forall_mem_cons.mp unbroken
        exact ⟨by simp [text],
          List.forall_mem_cons.mpr ⟨by simp [Ne.symm other, first], others⟩⟩

/-- There are as many lines as line feeds. -/
theorem length_of_lines {text : List Char} {parts : List (List Char)}
    (split : lines text = some parts) :
    parts.length = text.count '\n' := by
  obtain ⟨rfl, unbroken⟩ := flatMap_of_lines split
  clear split
  induction parts with
  | nil => rfl
  | cons line later ih =>
    obtain ⟨here, after⟩ := List.forall_mem_cons.mp unbroken
    rw [List.flatMap_cons, List.count_append, List.count_append,
      List.count_eq_zero.mpr here, ← ih after]
    simp [Nat.add_comm]

/-- Text and a line feed in front of lines, which the text may break, make lines. -/
theorem exists_lines_append {rest : List Char}
    (after : ∃ parts, lines rest = some parts) (text : List Char) :
    ∃ parts, lines (text ++ '\n' :: rest) = some parts ∧ parts ≠ [] := by
  induction text with
  | nil =>
    obtain ⟨parts, after⟩ := after
    exact ⟨[] :: parts, by simp [lines, after], by simp⟩
  | cons c text ih =>
    obtain ⟨parts, later, some⟩ := ih
    obtain ⟨line, parts, rfl⟩ := List.exists_cons_of_ne_nil some
    rw [List.cons_append, lines, later]
    split
    · exact ⟨_, rfl, by simp⟩
    · exact ⟨_, rfl, by simp⟩

/-- Texts that line feeds end have lines. -/
theorem exists_lines_flatMap (parts : List (List Char)) :
    ∃ found, lines (parts.flatMap (· ++ ['\n'])) = some found := by
  induction parts with
  | nil => exact ⟨[], rfl⟩
  | cons text rest ih =>
    obtain ⟨found, split, _⟩ := exists_lines_append ih text
    exact ⟨found, by rw [List.flatMap_cons, List.append_assoc,
      List.singleton_append, split]⟩

end FieldExpr.Text
