import FieldExpr.Proofs.Value.Documents
import FieldExpr.Value.Path

/-!
# Paths into documents

A written path is split at its dots and nowhere else (`spells_pathSegments`).
Its segments lead into a document as they lead into the value of the document:
to a part whose value is the part of the value, or to nothing in both
(`walk_ofJson`).
-/

namespace FieldExpr

/-! ## Segments -/

/-- The segments of a written path: they have dots between them and none inside. -/
structure Spells (path : String) (segments : List String) : Prop where
  joined : ".".intercalate segments = path
  dotless : ∀ segment ∈ segments, '.' ∉ segment.toList
  nonempty : segments ≠ []

theorem splitDots_ne_nil (text : List Char) : splitDots text ≠ [] := by
  fun_induction splitDots text <;> simp_all

theorem intercalate_splitDots (text : List Char) :
    ['.'].intercalate (splitDots text) = text := by
  fun_induction splitDots text with
  | case1 => rfl
  | case2 rest ih =>
    obtain ⟨part, parts, split⟩ :=
      List.exists_cons_of_ne_nil (splitDots_ne_nil rest)
    rw [split] at ih ⊢
    rw [List.intercalate_cons_cons, ih]
    rfl
  | case3 c rest _ none _ => exact absurd none (splitDots_ne_nil rest)
  | case4 c rest _ part parts split ih =>
    rw [split] at ih
    cases parts with
    | nil => simpa using ih
    | cons next parts =>
      rw [List.intercalate_cons_cons] at ih ⊢
      rw [← ih]
      rfl

theorem dotless_splitDots (text : List Char) :
    ∀ part ∈ splitDots text, '.' ∉ part := by
  fun_induction splitDots text with
  | case1 => simp
  | case2 rest ih => simpa using ih
  | case3 c rest _ none _ => exact absurd none (splitDots_ne_nil rest)
  | case4 c rest dot part parts split ih =>
    rw [split] at ih
    have other : '.' ≠ c := fun same => dot same.symm
    simp_all

theorem spells_pathSegments (path : String) : Spells path (pathSegments path) where
  joined := by
    refine String.toList_injective ?_
    have inverse : String.toList ∘ String.ofList = id :=
      funext fun _ => String.toList_ofList
    rw [String.toList_intercalate, pathSegments, List.map_map, inverse, List.map_id]
    exact intercalate_splitDots path.toList
  dotless segment mem := by
    obtain ⟨part, split, rfl⟩ := List.mem_map.mp mem
    rw [String.toList_ofList]
    exact dotless_splitDots path.toList part split
  nonempty nothing := splitDots_ne_nil path.toList (List.map_eq_nil_iff.mp nothing)

theorem splitDots_append_cons {part : List Char} (dotless : '.' ∉ part)
    (rest : List Char) :
    splitDots (part ++ '.' :: rest) = part :: splitDots rest := by
  induction part with
  | nil => rfl
  | cons c part ih =>
    obtain ⟨other, dotless⟩ : '.' ≠ c ∧ '.' ∉ part := by simpa using dotless
    rw [List.cons_append, splitDots, ih dotless]
    exact fun dot => other dot.symm

theorem splitDots_of_dotless {part : List Char} (dotless : '.' ∉ part) :
    splitDots part = [part] := by
  induction part with
  | nil => rfl
  | cons c part ih =>
    obtain ⟨other, dotless⟩ : '.' ≠ c ∧ '.' ∉ part := by simpa using dotless
    rw [splitDots, ih dotless]
    exact fun dot => other dot.symm

theorem splitDots_intercalate {parts : List (List Char)}
    (dotless : ∀ part ∈ parts, '.' ∉ part) (nonempty : parts ≠ []) :
    splitDots (['.'].intercalate parts) = parts := by
  induction parts with
  | nil => exact absurd rfl nonempty
  | cons part rest ih =>
    have first := dotless part List.mem_cons_self
    cases rest with
    | nil => simpa using splitDots_of_dotless first
    | cons next rest =>
      rw [List.intercalate_cons_cons, List.append_assoc, List.singleton_append,
        splitDots_append_cons first,
        ih (fun other mem => dotless other (List.mem_cons_of_mem _ mem))
          (List.cons_ne_nil _ _)]

/-- The segments of a path are the one list that spells it. -/
theorem spells_iff {path : String} {segments : List String} :
    Spells path segments ↔ pathSegments path = segments := by
  constructor
  · intro spelled
    have dotless : ∀ part ∈ segments.map String.toList, '.' ∉ part := by
      intro part mem
      obtain ⟨segment, found, rfl⟩ := List.mem_map.mp mem
      exact spelled.dotless segment found
    have inverse : String.ofList ∘ String.toList = id :=
      funext fun _ => String.ofList_toList
    have letters :
        path.toList = ['.'].intercalate (segments.map String.toList) := by
      rw [← spelled.joined, String.toList_intercalate]
      rfl
    rw [pathSegments, letters,
      splitDots_intercalate dotless (by simpa using spelled.nonempty),
      List.map_map, inverse, List.map_id]
  · rintro rfl
    exact spells_pathSegments path

/-! ## Walks -/

namespace Json

/-- One step into a document: the member of an object under a key, or the item
of an array at an unsigned number. -/
def segment? (j : Json) (segment : String) : Option Json :=
  match j with
  | .object entries => entries.lookup segment
  | .array items =>
    (Text.unsigned? 0x10000000000000000 segment.toList).bind fun index =>
      items[index]?
  | _ => none

/-- The part of a document that segments lead to, one after the other. -/
def walk? (j : Json) : List String → Option Json
  | [] => some j
  | segment :: rest => (j.segment? segment).bind fun part => part.walk? rest

end Json

namespace Value

variable {j : Json} {v : Value}

/-- Lists that are related element by element are related at every position. -/
theorem getElem?_of_forall₂ {α β : Type} {R : α → β → Prop} {as : List α}
    {bs : List β} (related : List.Forall₂ R as bs) (index : Nat) :
    Option.Rel R as[index]? bs[index]? := by
  induction related generalizing index with
  | nil => exact .none
  | cons first others ih =>
    cases index with
    | zero => exact .some first
    | succ index => exact ih index

/-- A key finds a member of a document where it finds the member's value, and
nothing where it finds nothing. -/
theorem lookup_ofJsonEntries {entries : List (String × Json)}
    {fields : List (String × Value)} (read : ofJsonEntries entries = .ok fields)
    (key : String) :
    Option.Rel (fun j v => ofJson j = .ok v) (entries.lookup key)
      (fields.lookup key) := by
  induction ofJsonEntries_eq_ok_iff.mp read with
  | nil => exact .none
  | @cons entry field entries fields first others ih =>
    rw [Json.lookup_cons_if, Json.lookup_cons_if, ← first.1]
    by_cases here : key = entry.1
    · rw [if_pos here, if_pos here]
      exact .some first.2
    · rw [if_neg here, if_neg here]
      exact ih (ofJsonEntries_eq_ok_iff.mpr others)

/-- A segment leads into a document as it leads into its value. -/
theorem segment_ofJson (read : ofJson j = .ok v) (segment : String) :
    Option.Rel (fun j v => ofJson j = .ok v) (j.segment? segment)
      (v.segment? segment) := by
  cases j with
  | object entries =>
    obtain ⟨fields, reads, rfl⟩ := map_eq_ok_iff.mp read
    exact lookup_ofJsonEntries reads segment
  | array items =>
    obtain ⟨values, reads, rfl⟩ := map_eq_ok_iff.mp read
    show Option.Rel _
      ((Text.unsigned? 0x10000000000000000 segment.toList).bind fun index =>
        items[index]?)
      ((Text.unsigned? 0x10000000000000000 segment.toList).bind fun index =>
        values[index]?)
    cases Text.unsigned? 0x10000000000000000 segment.toList with
    | none => exact .none
    | some index => exact getElem?_of_forall₂ (ofJsonItems_eq_ok_iff.mp reads) index
  | number n =>
    -- A number is an integer or a decimal, and neither has parts.
    unfold ofJson at read
    cases small : n.toInt64? with
    | some m =>
      rw [small] at read
      cases read
      exact .none
    | none =>
      rw [small] at read
      obtain ⟨d, _, rfl⟩ := map_eq_ok_iff.mp read
      exact .none
  | null =>
    cases read
    exact .none
  | boolean b =>
    cases read
    exact .none
  | string s =>
    cases read
    exact .none

/-- Segments lead into a document as they lead into its value. -/
theorem walk_ofJson (read : ofJson j = .ok v) (segments : List String) :
    Option.Rel (fun j v => ofJson j = .ok v) (j.walk? segments)
      (v.path? segments) := by
  induction segments generalizing j v with
  | nil => exact .some read
  | cons segment rest ih =>
    have step := segment_ofJson read segment
    show Option.Rel _ ((j.segment? segment).bind fun part => part.walk? rest)
      ((v.segment? segment).bind fun part => part.path? rest)
    generalize j.segment? segment = x at step
    generalize v.segment? segment = y at step
    cases step with
    | none => exact .none
    | some part => exact ih part

end Value

end FieldExpr
