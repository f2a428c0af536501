/-!
# Lookups

Records, objects, contexts and scopes are lists of entries in which a key finds the
first entry under it. The facts here hold whatever the keys and the values are.
-/

namespace FieldExpr

variable {κ α β : Type} [BEq κ]

/-- A function on values applies to what a key finds. -/
theorem lookup_map_values (f : α → β) (entries : List (κ × α)) (key : κ) :
    (entries.map fun entry => (entry.1, f entry.2)).lookup key =
      (entries.lookup key).map f := by
  induction entries with
  | nil => rfl
  | cons entry rest ih =>
    rw [List.map_cons, List.lookup_cons, List.lookup_cons, ih]
    cases key == entry.1 <;> rfl

variable [LawfulBEq κ] {key : κ} {value : α} {entries : List (κ × α)}

/-- What a key finds stands under it. -/
theorem mem_of_lookup (found : entries.lookup key = some value) :
    (key, value) ∈ entries := by
  obtain ⟨front, rest, split, _⟩ := List.lookup_eq_some_iff.mp found
  exact split ▸ List.mem_append_right _ List.mem_cons_self

/-- The key of an entry finds something. -/
theorem exists_lookup (mem : key ∈ entries.map Prod.fst) :
    ∃ value, entries.lookup key = some value := by
  obtain ⟨entry, mem, same⟩ := List.mem_map.mp mem
  cases found : entries.lookup key with
  | none =>
    rw [List.lookup_eq_none_iff] at found
    exact absurd (found entry mem) (by simp [same])
  | some value => exact ⟨value, rfl⟩

end FieldExpr
