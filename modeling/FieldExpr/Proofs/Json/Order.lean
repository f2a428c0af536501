import FieldExpr.Json.Basic
import FieldExpr.Proofs.Lookup
import Mathlib.Data.List.Nodup
import Mathlib.Data.List.Perm.Subperm

/-!
# The order of entries

Entries in ascending order of their keys are a normal form: two ascending lists in
which every key finds the same are equal. `ordered` computes this form, whatever
the order in which the entries come, and leaves ascending entries as they are.
-/

namespace FieldExpr.Json

/-- Each key is less than all keys behind it. -/
def Ascending {α : Type} (entries : List (String × α)) : Prop :=
  entries.Pairwise fun entry later => entry.1 < later.1

variable {α β : Type} {entries others : List (String × α)} {key : String}
    {value : α}

theorem key_lt_of_not {a b : String} (notLess : ¬ a < b) (ne : a ≠ b) : b < a := by
  refine String.not_le.mp fun le => ?_
  exact ne (String.le_antisymm le notLess)

theorem lookup_cons_if (name : String) (entry : String × α) :
    (entry :: entries).lookup name = if name = entry.1 then some entry.2
    else entries.lookup name := by
  rw [List.lookup_cons]
  by_cases same : name = entry.1
  · rw [if_pos same, beq_iff_eq.mpr same]
  · rw [if_neg same, beq_eq_false_iff_ne.mpr same]

/-! ## Insertion -/

theorem mem_of_mem_insert {entry : String × α}
    (mem : entry ∈ insert key value entries) :
    entry = (key, value) ∨ entry ∈ entries := by
  induction entries with
  | nil => exact .inl (List.mem_singleton.mp mem)
  | cons first rest ih =>
    obtain ⟨other, old⟩ := first
    unfold insert at mem
    split at mem
    · exact List.mem_cons.mp mem
    · split at mem
      · rcases List.mem_cons.mp mem with new | old
        · exact .inl new
        · exact .inr (List.mem_cons_of_mem _ old)
      · rcases List.mem_cons.mp mem with first | later
        · exact .inr (first ▸ List.mem_cons_self)
        · exact (ih later).imp_right (List.mem_cons_of_mem _)

theorem insert_ascending (ascending : Ascending entries) :
    Ascending (insert key value entries) := by
  induction entries with
  | nil => exact List.pairwise_singleton _ _
  | cons first rest ih =>
    obtain ⟨other, old⟩ := first
    have ascending' := List.pairwise_cons.mp ascending
    unfold insert
    split
    · rename_i less
      refine List.pairwise_cons.mpr ⟨?_, ascending⟩
      intro entry mem
      rcases List.mem_cons.mp mem with first | later
      · exact first ▸ less
      · exact String.lt_trans less (ascending'.1 entry later)
    · split
      · rename_i same
        exact List.pairwise_cons.mpr
          ⟨fun entry mem => same ▸ ascending'.1 entry mem, ascending'.2⟩
      · rename_i notLess ne
        refine List.pairwise_cons.mpr ⟨?_, ih ascending'.2⟩
        intro entry mem
        rcases mem_of_mem_insert mem with new | later
        · exact new ▸ key_lt_of_not notLess ne
        · exact ascending'.1 entry later

/-- A key finds what was inserted under it, and another key what it found before. -/
theorem lookup_insert (name : String) :
    (insert key value entries).lookup name = if name = key then some value
    else entries.lookup name := by
  induction entries with
  | nil => exact lookup_cons_if name (key, value)
  | cons first rest ih =>
    obtain ⟨other, old⟩ := first
    unfold insert
    split
    · exact lookup_cons_if name (key, value)
    · split
      · rename_i same
        subst same
        rw [lookup_cons_if, lookup_cons_if]
        by_cases same : name = key
        · rw [if_pos same, if_pos same]
        · rw [if_neg same, if_neg same, if_neg same]
      · rename_i ne
        rw [lookup_cons_if, lookup_cons_if, ih]
        by_cases same : name = key
        · have different : name ≠ other := same ▸ ne
          rw [if_neg different, if_pos same]
          simp [same]
        · rw [if_neg same, if_neg same]

/-- An entry with a greater key than all others goes behind them. -/
theorem insert_eq_append (greater : ∀ entry ∈ entries, entry.1 < key) :
    insert key value entries = entries ++ [(key, value)] := by
  induction entries with
  | nil => rfl
  | cons first rest ih =>
    obtain ⟨other, old⟩ := first
    have less : other < key := greater (other, old) List.mem_cons_self
    have notLess : ¬ key < other := String.lt_asymm less
    have ne : key ≠ other := by
      rintro rfl
      exact String.lt_irrefl _ less
    unfold insert
    rw [if_neg notLess, if_neg ne, ih fun entry mem =>
      greater entry (List.mem_cons_of_mem _ mem)]
    rfl

/-- Inserting commutes with a function on values. -/
theorem insert_map (f : α → β) :
    insert key (f value) (entries.map fun entry => (entry.1, f entry.2)) =
      (insert key value entries).map fun entry => (entry.1, f entry.2) := by
  induction entries with
  | nil => rfl
  | cons first rest ih =>
    obtain ⟨other, old⟩ := first
    rw [List.map_cons]
    unfold insert
    split
    · rfl
    · split
      · rfl
      · rw [ih, List.map_cons]

/-! ## Ordered entries -/

theorem foldl_insert_ascending (ascending : Ascending others) :
    Ascending (entries.foldl (fun done entry => insert entry.1 entry.2 done)
      others) := by
  induction entries generalizing others with
  | nil => exact ascending
  | cons first rest ih => exact ih (insert_ascending ascending)

theorem ordered_ascending (entries : List (String × α)) :
    Ascending (ordered entries) :=
  foldl_insert_ascending List.Pairwise.nil

theorem mem_of_mem_foldl_insert {entry : String × α}
    (mem : entry ∈
      entries.foldl (fun done entry => insert entry.1 entry.2 done) others) :
    entry ∈ entries ∨ entry ∈ others := by
  induction entries generalizing others with
  | nil => exact .inr mem
  | cons first rest ih =>
    rcases ih mem with later | done
    · exact .inl (List.mem_cons_of_mem _ later)
    · rcases mem_of_mem_insert done with new | old
      · exact .inl (new ▸ List.mem_cons_self)
      · exact .inr old

theorem mem_of_mem_ordered {entry : String × α}
    (mem : entry ∈ ordered entries) : entry ∈ entries := by
  rcases mem_of_mem_foldl_insert mem with given | nothing
  · exact given
  · cases nothing

theorem ordered_map (f : α → β) (entries : List (String × α)) :
    ordered (entries.map fun entry => (entry.1, f entry.2)) =
      (ordered entries).map fun entry => (entry.1, f entry.2) := by
  have fold : ∀ others : List (String × α),
      (entries.map fun entry => (entry.1, f entry.2)).foldl
        (fun done entry => insert entry.1 entry.2 done)
        (others.map fun entry => (entry.1, f entry.2)) =
      (entries.foldl (fun done entry => insert entry.1 entry.2 done) others).map
        fun entry => (entry.1, f entry.2) := by
    induction entries with
    | nil =>
      intro others
      rfl
    | cons first rest ih =>
      intro others
      rw [List.map_cons, List.foldl_cons, List.foldl_cons]
      dsimp only
      rw [insert_map, ih]
  exact fold []

/-- In ordered entries a key finds the last one under it. -/
theorem lookup_ordered (entries : List (String × α)) (name : String) :
    (ordered entries).lookup name = entries.reverse.lookup name := by
  have fold : ∀ others : List (String × α),
      (entries.foldl (fun done entry => insert entry.1 entry.2 done)
        others).lookup name =
        (entries.reverse ++ others).lookup name := by
    induction entries with
    | nil =>
      intro others
      rfl
    | cons first rest ih =>
      intro others
      rw [List.foldl_cons, ih, List.reverse_cons, List.append_assoc,
        List.lookup_append, List.lookup_append, lookup_insert,
        List.singleton_append, lookup_cons_if]
  have all := fold []
  rwa [List.append_nil] at all

/-! ## Distinct keys -/

/-- Among distinct keys the order of entries does not matter to a lookup. -/
theorem lookup_eq_some_iff_mem (distinct : (entries.map (·.1)).Nodup) :
    entries.lookup key = some value ↔ (key, value) ∈ entries := by
  induction entries with
  | nil => simp
  | cons first rest ih =>
    obtain ⟨other, old⟩ := first
    rw [List.map_cons, List.nodup_cons] at distinct
    rw [lookup_cons_if, List.mem_cons]
    by_cases same : key = other
    · subst same
      have absent : (key, value) ∉ rest := by
        intro mem
        exact distinct.1 (List.mem_map.mpr ⟨_, mem, rfl⟩)
      simp [absent, eq_comm]
    · rw [if_neg same, ih distinct.2]
      simp [same]

theorem lookup_reverse (distinct : (entries.map (·.1)).Nodup) (name : String) :
    entries.reverse.lookup name = entries.lookup name := by
  have reversed : (entries.reverse.map (·.1)).Nodup := by
    rw [List.map_reverse]
    exact (List.reverse_perm _).symm.nodup distinct
  refine Option.ext fun value => ?_
  rw [lookup_eq_some_iff_mem reversed, lookup_eq_some_iff_mem distinct,
    List.mem_reverse]

theorem Ascending.distinct (ascending : Ascending entries) :
    (entries.map (·.1)).Nodup := by
  refine List.pairwise_map.mpr (ascending.imp ?_)
  intro entry later less same
  exact String.lt_irrefl _ (same ▸ less)

/-- Ordering keeps entries with distinct keys. -/
theorem mem_ordered (distinct : (entries.map (·.1)).Nodup) {entry : String × α} :
    entry ∈ ordered entries ↔ entry ∈ entries := by
  rw [← lookup_eq_some_iff_mem
    (ordered_ascending entries).distinct, ← lookup_eq_some_iff_mem distinct,
    lookup_ordered, lookup_reverse distinct]

/-- The entries behind the first one are those that it is not. -/
theorem Ascending.mem_tail {first entry : String × α} {rest : List (String × α)}
    (ascending : Ascending (first :: rest)) :
    entry ∈ rest ↔ entry ∈ first :: rest ∧ entry ≠ first := by
  constructor
  · intro later
    refine ⟨List.mem_cons_of_mem _ later, ?_⟩
    rintro rfl
    exact String.lt_irrefl _ ((List.pairwise_cons.mp ascending).1 _ later)
  · rintro ⟨mem, ne⟩
    exact (List.mem_cons.mp mem).resolve_left ne

/-- Ascending entries in which every key finds the same are the same. -/
theorem Ascending.ext (first : Ascending entries) (second : Ascending others)
    (same : ∀ name, entries.lookup name = others.lookup name) :
    entries = others := by
  induction entries generalizing others with
  | nil =>
    cases others with
    | nil => rfl
    | cons entry rest =>
      have found := same entry.1
      rw [List.lookup_cons_self] at found
      cases found
  | cons entry rest ih =>
    cases others with
    | nil =>
      have found := same entry.1
      rw [List.lookup_cons_self] at found
      cases found
    | cons entry' rest' =>
      have mem : ∀ name value, (name, value) ∈ entry :: rest ↔
          (name, value) ∈ entry' :: rest' := by
        intro name value
        rw [← lookup_eq_some_iff_mem first.distinct, ← lookup_eq_some_iff_mem
          second.distinct, same]
      have first' := List.pairwise_cons.mp first
      have second' := List.pairwise_cons.mp second
      -- Each head is in the other list, and behind the other head it would be
      -- both less and greater.
      have heads : entry = entry' := by
        rcases List.mem_cons.mp
          ((mem entry.1 entry.2).mp List.mem_cons_self) with equal | later
        · exact equal
        · rcases List.mem_cons.mp
            ((mem entry'.1 entry'.2).mpr List.mem_cons_self) with equal | later'
          · exact equal.symm
          · exact absurd (second'.1 _ later) (String.lt_asymm (first'.1 _ later'))
      subst heads
      congr 1
      refine ih first'.2 second'.2 fun name => ?_
      refine Option.ext fun value => ?_
      rw [lookup_eq_some_iff_mem (Ascending.distinct first'.2),
        lookup_eq_some_iff_mem (Ascending.distinct second'.2),
        first.mem_tail, second.mem_tail, mem]

/-- Ascending entries are ordered already. -/
theorem Ascending.ordered_eq (ascending : Ascending entries) :
    ordered entries = entries := by
  refine (ordered_ascending entries).ext ascending fun name => ?_
  rw [lookup_ordered, lookup_reverse ascending.distinct]

/-- Entries with distinct keys have one ordered form exactly when every key
finds the same in them. -/
theorem ordered_eq_iff (first : (entries.map (·.1)).Nodup)
    (second : (others.map (·.1)).Nodup) :
    ordered entries = ordered others ↔
    ∀ name, entries.lookup name = others.lookup name := by
  constructor
  · intro same name
    rw [← lookup_reverse first, ← lookup_reverse
      second, ← lookup_ordered, ← lookup_ordered, same]
  · intro same
    refine (ordered_ascending entries).ext (ordered_ascending others) fun name => ?_
    rw [lookup_ordered, lookup_ordered, lookup_reverse first,
      lookup_reverse second, same]

/-- Among distinct keys it is enough to look in one direction, if there are as
many entries in both lists. -/
theorem lookups_eq_iff (first : (entries.map (·.1)).Nodup)
    (second : (others.map (·.1)).Nodup) :
    (∀ name, entries.lookup name = others.lookup name) ↔
      entries.length = others.length ∧ ∀ entry ∈ entries,
        others.lookup entry.1 = some entry.2 := by
  constructor
  · intro same
    have mem : ∀ entry, entry ∈ entries ↔ entry ∈ others := by
      intro entry
      rw [← lookup_eq_some_iff_mem first, ← lookup_eq_some_iff_mem second, same]
    have perm : entries.Perm others :=
      (List.perm_ext_iff_of_nodup first.of_map second.of_map).mpr mem
    refine ⟨perm.length_eq, fun entry found => ?_⟩
    rw [lookup_eq_some_iff_mem second]
    exact (mem entry).mp found
  · rintro ⟨length, found⟩ name
    have subset : entries ⊆ others :=
      fun entry mem => (lookup_eq_some_iff_mem second).mp (found entry mem)
    have perm : entries.Perm others :=
      (List.subperm_of_subset first.of_map subset).perm_of_length_le
        (Nat.le_of_eq length.symm)
    refine Option.ext fun value => ?_
    rw [lookup_eq_some_iff_mem first, lookup_eq_some_iff_mem second]
    exact perm.mem_iff

end FieldExpr.Json
