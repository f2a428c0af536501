import FieldExpr.Json.Writer
import FieldExpr.Proofs.Json.Building
import FieldExpr.Proofs.Text.Utf8

/-!
# Sorted keys

Two documents are rearrangements of each other when they differ in nothing but
the order of entries, in objects at any level (`Rearranged`). Sorting the keys
of a document whose objects have distinct keys rearranges it, and gives all of
its rearrangements one form: the only one whose keys ascend everywhere. What is
written of sorted documents does therefore not depend on the order in which a
map hands out its entries.
-/

namespace FieldExpr.Json

/-! ## Rearranged documents -/

mutual

/-- The entries of every object, at every level, have the property. -/
def EveryObject (property : List (String × Json) → Prop) : Json → Prop
  | .array items => EveryObjectItems property items
  | .object entries => property entries ∧ EveryObjectEntries property entries
  | _ => True

/-- `EveryObject` for every item. -/
def EveryObjectItems (property : List (String × Json) → Prop) : List Json → Prop
  | [] => True
  | item :: rest => item.EveryObject property ∧ EveryObjectItems property rest

/-- `EveryObject` for the value of every entry. -/
def EveryObjectEntries (property : List (String × Json) → Prop) :
    List (String × Json) → Prop
  | [] => True
  | (_, value) :: rest =>
    value.EveryObject property ∧ EveryObjectEntries property rest

end

/-- No object has a key twice. -/
def DistinctKeys (j : Json) : Prop :=
  j.EveryObject fun entries => (entries.map (·.1)).Nodup

/-- In every object each key is less than all keys behind it, as bytes. -/
def SortedByBytes (j : Json) : Prop :=
  j.EveryObject fun entries => entries.Pairwise fun entry later =>
    Text.utf8 entry.1.toList < Text.utf8 later.1.toList

/-- The documents differ at most in the order of the entries of objects, one
object after another. -/
inductive Rearranged : Json → Json → Prop
  | refl (j : Json) : Rearranged j j
  | trans {a b c : Json} : Rearranged a b → Rearranged b c → Rearranged a c
  | entries {entries others : List (String × Json)} : entries.Perm others →
    Rearranged (.object entries) (.object others)
  | item (before after : List Json) {a b : Json} : Rearranged a b →
    Rearranged (.array (before ++ a :: after)) (.array (before ++ b :: after))
  | value (before after : List (String × Json)) (key : String) {a b : Json} :
    Rearranged a b →
    Rearranged (.object (before ++ (key, a) :: after))
      (.object (before ++ (key, b) :: after))

variable {a b j k : Json} {items others : List Json}
  {entries rest : List (String × Json)} {property : List (String × Json) → Prop}

theorem Rearranged.symm (rearranged : Rearranged a b) : Rearranged b a := by
  induction rearranged with
  | refl j => exact .refl j
  | trans _ _ first second => exact second.trans first
  | entries perm => exact .entries perm.symm
  | item before after _ ih => exact .item before after ih
  | value before after key _ ih => exact .value before after key ih

/-! ## Objects at every level -/

theorem everyObjectItems_iff :
    EveryObjectItems property items ↔
    ∀ item ∈ items, item.EveryObject property := by
  induction items with
  | nil => simp [EveryObjectItems]
  | cons item rest ih => rw [EveryObjectItems, ih, List.forall_mem_cons]

theorem everyObjectEntries_iff :
    EveryObjectEntries property entries ↔
    ∀ entry ∈ entries, entry.2.EveryObject property := by
  induction entries with
  | nil => simp [EveryObjectEntries]
  | cons entry rest ih =>
    show entry.2.EveryObject property ∧ EveryObjectEntries property rest ↔ _
    rw [ih, List.forall_mem_cons]

/-- What holds of documents without parts, of arrays if it holds of their items,
and of objects if it holds of their values, holds of all documents. -/
@[elab_as_elim]
theorem byLevels {motive : Json → Prop} (plain : ∀ j, j.Plain → motive j)
    (array : ∀ items, (∀ item ∈ items, motive item) → motive (.array items))
    (object : ∀ entries, (∀ entry ∈ entries, motive entry.2) →
      motive (.object entries)) (j : Json) : motive j := by
  refine @Json.rec motive (fun items => ∀ item ∈ items, motive item)
    (fun entries => ∀ entry ∈ entries, motive entry.2)
    (fun entry => motive entry.2) (plain _ trivial) (fun _ => plain _ trivial)
    (fun _ => plain _ trivial) (fun _ => plain _ trivial) array object
    ?_ ?_ ?_ ?_ ?_ j
  · simp
  · intro first rest head tail
    exact List.forall_mem_cons.mpr ⟨head, tail⟩
  · simp
  · intro first rest head tail
    exact List.forall_mem_cons.mpr ⟨head, tail⟩
  · intro key value holds
    exact holds

/-! ## Sorting -/

theorem Plain.sortKeys_eq (plain : j.Plain) : j.sortKeys = j := by
  cases j with
  | array items => exact plain.elim
  | object entries => exact plain.elim
  | _ => rfl

theorem Plain.everyObject (plain : j.Plain) : j.EveryObject property := by
  cases j with
  | array items => exact plain.elim
  | object entries => exact plain.elim
  | _ => trivial

theorem sortKeysItems_eq (items : List Json) :
    sortKeysItems items = items.map sortKeys := by
  induction items with
  | nil => rfl
  | cons item rest ih => rw [sortKeysItems, ih, List.map_cons]

theorem sortKeysEntries_eq (entries : List (String × Json)) :
    sortKeysEntries entries = entries.map fun entry =>
      (entry.1, entry.2.sortKeys) := by
  induction entries with
  | nil => rfl
  | cons entry rest ih =>
    show (entry.1, entry.2.sortKeys) :: sortKeysEntries rest = _
    rw [ih, List.map_cons]

theorem sortKeys_array (items : List Json) :
    (array items).sortKeys = .array (items.map sortKeys) := by
  rw [sortKeys, sortKeysItems_eq]

theorem sortKeys_object (entries : List (String × Json)) :
    (object entries).sortKeys =
      .object (ordered (entries.map fun entry => (entry.1, entry.2.sortKeys))) := by
  rw [sortKeys, sortKeysEntries_eq, ofEntries]

/-- Ordering permutes entries with distinct keys. -/
theorem ordered_perm {α : Type} {entries : List (String × α)}
    (distinct : (entries.map (·.1)).Nodup) :
    (ordered entries).Perm entries :=
  (List.perm_ext_iff_of_nodup (ordered_ascending entries).distinct.of_map
      distinct.of_map).mpr fun _ =>
    mem_ordered distinct

/-- The order in which entries with distinct keys come does not matter. -/
theorem ordered_eq_of_perm {α : Type} {entries others : List (String × α)}
    (distinct : (entries.map (·.1)).Nodup) (perm : entries.Perm others) :
    ordered others = ordered entries := by
  have distinct' : (others.map (·.1)).Nodup := (perm.map _).nodup_iff.mp distinct
  refine (ordered_eq_iff distinct' distinct).mpr fun name =>
    Option.ext fun value => ?_
  rw [lookup_eq_some_iff_mem distinct', lookup_eq_some_iff_mem distinct]
  exact perm.symm.mem_iff

/-! ## Sorted documents are rearranged -/

theorem rearranged_array {f : Json → Json}
    (each : ∀ item ∈ items, Rearranged item (f item)) :
    ∀ before, Rearranged (.array (before ++ items))
      (.array (before ++ items.map f)) := by
  induction items with
  | nil => exact fun before => .refl _
  | cons item rest ih =>
    intro before
    have further :=
      ih (fun other mem => each other (List.mem_cons_of_mem _ mem))
        (before ++ [f item])
    rw [List.append_assoc, List.append_assoc, List.singleton_append,
      List.singleton_append] at further
    exact (Rearranged.item before rest (each item List.mem_cons_self)).trans further

theorem rearranged_object {f : Json → Json}
    (each : ∀ entry ∈ entries, Rearranged entry.2 (f entry.2)) :
    ∀ before, Rearranged (.object (before ++ entries))
      (.object (before ++ entries.map fun entry => (entry.1, f entry.2))) := by
  induction entries with
  | nil => exact fun before => .refl _
  | cons entry rest ih =>
    intro before
    have further :=
      ih (fun other mem => each other (List.mem_cons_of_mem _ mem))
        (before ++ [(entry.1, f entry.2)])
    rw [List.append_assoc, List.append_assoc, List.singleton_append,
      List.singleton_append] at further
    exact (Rearranged.value before rest entry.1
      (each entry List.mem_cons_self)).trans further

theorem names_map_values (f : Json → Json) (entries : List (String × Json)) :
    (entries.map fun entry => (entry.1, f entry.2)).map (·.1) =
      entries.map (·.1) := by
  rw [List.map_map]
  rfl

/-- Sorting the keys rearranges a document. -/
theorem DistinctKeys.rearranged_sortKeys (distinct : j.DistinctKeys) :
    Rearranged j j.sortKeys := by
  induction j using byLevels with
  | plain j plain =>
    rw [plain.sortKeys_eq]
    exact .refl j
  | array items ih =>
    have parts := everyObjectItems_iff.mp distinct
    rw [sortKeys_array]
    exact rearranged_array (fun item mem => ih item mem (parts item mem)) []
  | object entries ih =>
    obtain ⟨names, values⟩ := distinct
    have parts := everyObjectEntries_iff.mp values
    rw [sortKeys_object]
    refine (rearranged_object (fun entry mem => ih entry mem (parts entry mem))
      []).trans (.entries ?_)
    refine (ordered_perm ?_).symm
    rw [List.nil_append, names_map_values]
    exact names

/-- Sorted keys ascend. -/
theorem sortedByBytes_sortKeys (j : Json) : j.sortKeys.SortedByBytes := by
  induction j using byLevels with
  | plain j plain =>
    rw [plain.sortKeys_eq]
    exact plain.everyObject
  | array items ih =>
    rw [sortKeys_array]
    exact everyObjectItems_iff.mpr (List.forall_mem_map.mpr ih)
  | object entries ih =>
    rw [sortKeys_object]
    refine ⟨(ordered_ascending _).imp fun less => Text.utf8_lt_iff.mpr less,
      everyObjectEntries_iff.mpr ?_⟩
    intro entry mem
    obtain ⟨given, member, rfl⟩ := List.mem_map.mp (mem_of_mem_ordered mem)
    exact ih given member

/-- Sorting changes nothing where the keys ascend already. -/
theorem SortedByBytes.sortKeys_eq (sorted : j.SortedByBytes) : j.sortKeys = j := by
  induction j using byLevels with
  | plain j plain => exact plain.sortKeys_eq
  | array items ih =>
    have parts := everyObjectItems_iff.mp sorted
    have same : items.map sortKeys = items :=
      (List.map_congr_left fun item mem => ih item mem (parts item mem)).trans
        (List.map_id items)
    rw [sortKeys_array, same]
  | object entries ih =>
    obtain ⟨ascending, values⟩ := sorted
    have parts := everyObjectEntries_iff.mp values
    have each : ∀ entry ∈ entries, (entry.1, entry.2.sortKeys) = id entry :=
      fun entry mem =>
      Prod.ext rfl (ih entry mem (parts entry mem))
    have same : (entries.map fun entry => (entry.1, entry.2.sortKeys)) = entries :=
      (List.map_congr_left each).trans (List.map_id entries)
    have ordered_eq : ordered entries = entries :=
      Ascending.ordered_eq (ascending.imp fun less => Text.utf8_lt_iff.mp less)
    rw [sortKeys_object, same, ordered_eq]

/-! ## Rearranged documents are sorted alike -/

/-- Rearranging keeps keys distinct, and does not change what sorting makes
of a document. -/
theorem Rearranged.sortKeys_eq (rearranged : Rearranged j k) :
    j.DistinctKeys → k.DistinctKeys ∧ k.sortKeys = j.sortKeys := by
  induction rearranged with
  | refl j => exact fun distinct => ⟨distinct, rfl⟩
  | trans _ _ first second =>
    intro distinct
    obtain ⟨distinct, same⟩ := first distinct
    obtain ⟨distinct, same'⟩ := second distinct
    exact ⟨distinct, same'.trans same⟩
  | entries perm =>
    rintro ⟨names, values⟩
    refine ⟨⟨(perm.map _).nodup_iff.mp names,
      everyObjectEntries_iff.mpr fun entry mem => ?_⟩, ?_⟩
    · exact everyObjectEntries_iff.mp values entry (perm.mem_iff.mpr mem)
    · rw [sortKeys_object, sortKeys_object, ordered_eq_of_perm ?_ (perm.map _)]
      rwa [names_map_values]
  | item before after _ ih =>
    intro distinct
    obtain ⟨first, rest⟩ :=
      List.forall_mem_append.mp (everyObjectItems_iff.mp distinct)
    obtain ⟨item, last⟩ := List.forall_mem_cons.mp rest
    obtain ⟨item, same⟩ := ih item
    refine ⟨everyObjectItems_iff.mpr
      (List.forall_mem_append.mpr
        ⟨first, List.forall_mem_cons.mpr ⟨item, last⟩⟩), ?_⟩
    rw [sortKeys_array, sortKeys_array, List.map_append, List.map_append,
      List.map_cons, List.map_cons, same]
  | @value before after key a b _ ih =>
    rintro ⟨names, values⟩
    obtain ⟨first, rest⟩ :=
      List.forall_mem_append.mp (everyObjectEntries_iff.mp values)
    obtain ⟨value, last⟩ := List.forall_mem_cons.mp rest
    obtain ⟨value, same⟩ := ih value
    have keys : (before ++ (key, b) :: after).map (·.1) =
        (before ++ (key, a) :: after).map (·.1) := by
      rw [List.map_append, List.map_append, List.map_cons, List.map_cons]
    refine ⟨⟨?_, everyObjectEntries_iff.mpr
      (List.forall_mem_append.mpr
        ⟨first, List.forall_mem_cons.mpr ⟨value, last⟩⟩)⟩, ?_⟩
    · show ((before ++ (key, b) :: after).map (·.1)).Nodup
      rwa [keys]
    · rw [sortKeys_object, sortKeys_object, List.map_append, List.map_append,
        List.map_cons, List.map_cons, same]

/-! ## The sorted form -/

/-- Sorting the keys is independent of the order of entries. The sorted form of
a document whose objects have distinct keys is a rearrangement of it in which
the keys ascend byte by byte at every level, and the only one; sorting it again
changes nothing. All rearrangements of the document have this form, and so they
are written alike; documents of one form are rearrangements of each other. -/
theorem sortKeys_canonicalForm (distinct : j.DistinctKeys) :
    Rearranged j j.sortKeys ∧ j.sortKeys.SortedByBytes ∧
      j.sortKeys.sortKeys = j.sortKeys ∧
      (∀ k, Rearranged j k → k.SortedByBytes → k = j.sortKeys) ∧
      (∀ k, Rearranged j k → k.sortKeys = j.sortKeys ∧
        Text.utf8 (k.sortKeys.write []) = Text.utf8 (j.sortKeys.write [])) ∧
      ∀ k, k.DistinctKeys → k.sortKeys = j.sortKeys → Rearranged j k := by
  have same : ∀ {k}, Rearranged j k → k.sortKeys = j.sortKeys :=
    fun rearranged => (rearranged.sortKeys_eq distinct).2
  refine ⟨distinct.rearranged_sortKeys, sortedByBytes_sortKeys j,
    (sortedByBytes_sortKeys j).sortKeys_eq, ?_, ?_, ?_⟩
  · intro k rearranged sorted
    rw [← same rearranged, sorted.sortKeys_eq]
  · intro k rearranged
    rw [same rearranged]
    exact ⟨rfl, rfl⟩
  · intro k distinct' equal
    have sorted := distinct'.rearranged_sortKeys
    rw [equal] at sorted
    exact distinct.rearranged_sortKeys.trans sorted.symm

/-- An object whose keys, and those of an object inside an array of it,
are in no order. -/
def unsorted : Json :=
  .object [
    ("b", .array [.object [("é", .string "later"), ("z", .null)], .object []]),
    ("a", .boolean true)]

/-- The same object in the order of a map that sorts its keys. -/
def unsortedFromMap : Json :=
  .object [("a", .boolean true),
    ("b", .array [.object [("z", .null), ("é", .string "later")], .object []])]

theorem sortKeys_unsorted :
    unsorted.DistinctKeys ∧ Rearranged unsorted unsortedFromMap ∧
    unsortedFromMap = unsorted.sortKeys ∧
    Text.utf8 (unsortedFromMap.sortKeys.write []) =
      Text.utf8 (unsorted.sortKeys.write []) := by
  have distinct : unsorted.DistinctKeys := by
    simp [unsorted, DistinctKeys, EveryObject, EveryObjectItems, EveryObjectEntries]
  have inner : Rearranged (.object [("é", .string "later"), ("z", .null)])
      (.object [("z", .null), ("é", .string "later")]) :=
    .entries (List.Perm.swap _ _ _)
  have outer : Rearranged unsorted unsortedFromMap :=
    (Rearranged.value [] [("a", .boolean true)] "b"
        (.item [] [.object []] inner)).trans
      (.entries (List.Perm.swap _ _ _))
  have sorted : unsortedFromMap.SortedByBytes := by
    refine ⟨List.pairwise_pair.mpr ?_, trivial,
      ⟨⟨List.pairwise_pair.mpr ?_, trivial, trivial, trivial⟩,
      ⟨.nil, trivial⟩, trivial⟩, trivial⟩
    · show Text.utf8 "a".toList < Text.utf8 "b".toList
      decide
    · show Text.utf8 "z".toList < Text.utf8 "é".toList
      decide
  obtain ⟨_, _, _, unique, alike, _⟩ := sortKeys_canonicalForm distinct
  exact ⟨distinct, outer, unique _ outer sorted, (alike _ outer).2⟩

end FieldExpr.Json
