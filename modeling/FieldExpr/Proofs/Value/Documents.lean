import FieldExpr.Proofs.Artifact.RoundTrip
import FieldExpr.Proofs.Decimal.Arithmetic
import FieldExpr.Proofs.Decimal.Text
import FieldExpr.Proofs.Json.Reading
import FieldExpr.Value.Json

/-!
# Documents as values

A document whose numbers are integers comes back unchanged from the value that
it stands for. Integers that fit 64 signed bits stay integers; the greater ones
become decimals, whose text is that of the integer again
(`decimalToJson_ofInt`).
-/

namespace FieldExpr

/-! ## Integers -/

/-- The text of an integer is the number that it was written from. -/
theorem Json.Number.ofText?_integer {n : Int} (low : -0x8000000000000000 ≤ n)
    (high : n < 0x10000000000000000) :
    Json.Number.ofText? (Text.integer n) = some (.integer n low high) := by
  have nothing : Json.Stops [] := by
    intro c tail same
    cases same
  have whole : Json.read {} ((Text.integer n).flatMap String.utf8EncodeChar) =
      .ok (.number (.integer n low high), []) := by
    rw [← List.append_nil (Text.integer n)]
    exact Json.readFrom_integer false low high nothing
  unfold Json.Number.ofText?
  rw [whole]

namespace Decimal

variable {n : Int} {d : Decimal}

/-- Integers of 64 bits, signed or unsigned, fit decimals. -/
theorem natAbs_lt_capacity (low : -0x8000000000000000 ≤ n)
    (high : n < 0x10000000000000000) : n.natAbs < capacity := by
  simp only [capacity]
  omega

theorem text_ofInt (fits : n.natAbs < capacity) :
    (ofInt n fits).text = Text.integer n := by
  show (if decide (n < 0) = true then ['-'] else []) ++
    Text.natural (n.natAbs / tenPow 0) ++ [] = _
  unfold Text.integer
  rw [List.append_nil]
  by_cases negative : n < 0
  · rw [if_pos negative, if_pos (decide_eq_true negative)]
    show '-' :: Text.natural (n.natAbs / 1) = _
    rw [Nat.div_one]
  · rw [if_neg negative, if_neg (by simpa using negative)]
    show Text.natural (n.natAbs / 1) = _
    rw [Nat.div_one]

theorem ofInt_isNormal (fits : n.natAbs < capacity) : (ofInt n fits).IsNormal where
  zero none := by
    have zero : n = 0 := Int.natAbs_eq_zero.mp none
    subst zero
    exact ⟨rfl, rfl⟩
  last := .inl rfl

theorem units_ofInt (fits : n.natAbs < capacity) :
    (ofInt n fits).units = n * (tenPow maxScale : Nat) := by
  show signed (decide (n < 0)) (n.natAbs * tenPow maxScale) = _
  rw [← signed_mul, signed_natAbs]

/-- A decimal that is worth an integer is that integer in normal form. -/
theorem normalize_eq_ofInt (fits : n.natAbs < capacity)
    (worth : d.units = n * (tenPow maxScale : Nat)) :
    d.normalize = ofInt n fits := by
  refine (normalize_isNormal d).ext (ofInt_isNormal fits) ?_
  rw [units_normalize, worth, units_ofInt]

end Decimal

namespace Value

/-- A decimal that is worth an integer of 64 bits, signed or unsigned, is
written as that integer. -/
theorem decimalToJson_of_units {d : Decimal} {n : Int}
    (low : -0x8000000000000000 ≤ n) (high : n < 0x10000000000000000)
    (worth : d.units = n * (tenPow Decimal.maxScale : Nat)) :
    decimalToJson d = .number (.integer n low high) := by
  have fits := Decimal.natAbs_lt_capacity low high
  unfold decimalToJson
  rw [Decimal.normalize_eq_ofInt fits worth, Decimal.text_ofInt fits,
    Json.Number.ofText?_integer low high]

/-- An integer of a document: one that fits is kept as it is, a greater one
becomes a decimal of the same value. -/
theorem ofJson_integer {n : Int} (low : -0x8000000000000000 ≤ n)
    (high : n < 0x10000000000000000) :
    ofJson (.number (.integer n low high)) =
      .ok (if n < 0x8000000000000000 then .integer (Int64.ofInt n)
      else .decimal (.ofInt n (Decimal.natAbs_lt_capacity low high))) := by
  by_cases small : n < 0x8000000000000000
  · have found : (Json.Number.integer n low high).toInt64? =
      some (Int64.ofInt n) := if_pos small
    unfold ofJson
    rw [found, if_pos small]
  · have found : (Json.Number.integer n low high).toInt64? = none := if_neg small
    unfold ofJson
    rw [found, if_neg small]
    rfl

/-! ## Documents -/

/-- Items are read one by one. -/
theorem ofJsonItems_eq_ok_iff {items : List Json} {values : List Value} :
    ofJsonItems items = .ok values ↔
    List.Forall₂ (fun j v => ofJson j = .ok v) items values := by
  induction items generalizing values with
  | nil =>
    rw [List.forall₂_nil_left_iff]
    exact ⟨fun same => (Except.ok.inj same).symm,
      fun same => congrArg Except.ok same.symm⟩
  | cons item rest ih =>
    unfold ofJsonItems
    rw [bind_eq_ok_iff, List.forall₂_cons_left_iff]
    constructor
    · rintro ⟨v, first, others⟩
      obtain ⟨values, others, same⟩ := bind_eq_ok_iff.mp others
      exact ⟨v, values, first, ih.mp others, (Except.ok.inj same).symm⟩
    · rintro ⟨v, values, first, others, rfl⟩
      exact ⟨v, first, bind_eq_ok_iff.mpr ⟨values, ih.mpr others, rfl⟩⟩

/-- Entries are read one by one, and keep their keys. -/
theorem ofJsonEntries_eq_ok_iff {entries : List (String × Json)}
    {fields : List (String × Value)} :
    ofJsonEntries entries = .ok fields ↔
      List.Forall₂ (fun entry field => entry.1 = field.1 ∧
        ofJson entry.2 = .ok field.2) entries fields := by
  induction entries generalizing fields with
  | nil =>
    rw [List.forall₂_nil_left_iff]
    exact ⟨fun same => (Except.ok.inj same).symm,
      fun same => congrArg Except.ok same.symm⟩
  | cons entry rest ih =>
    obtain ⟨key, item⟩ := entry
    unfold ofJsonEntries
    rw [bind_eq_ok_iff, List.forall₂_cons_left_iff]
    constructor
    · rintro ⟨v, first, others⟩
      obtain ⟨fields, others, same⟩ := bind_eq_ok_iff.mp others
      exact ⟨(key, v), fields, ⟨rfl, first⟩, ih.mp others,
        (Except.ok.inj same).symm⟩
    · rintro ⟨⟨_, v⟩, fields, ⟨rfl, first⟩, others, rfl⟩
      exact ⟨v, first, bind_eq_ok_iff.mpr ⟨fields, ih.mpr others, rfl⟩⟩

mutual

/-- A normal document is that of a value. -/
theorem exists_ofJson : (j : Json) → j.Normal → ∃ v, ofJson j = .ok v ∧ v.toJson = j
  | .null, _ => ⟨.unit, rfl, rfl⟩
  | .boolean b, _ => ⟨.boolean b, rfl, rfl⟩
  | .number (.integer n low high), _ => by
    refine ⟨_, ofJson_integer low high, ?_⟩
    by_cases small : n < 0x8000000000000000
    · have value : (Int64.ofInt n).toInt = n := Int64.toInt_ofInt_of_le low small
      rw [if_pos small]
      show Json.number (.integer (Int64.ofInt n).toInt _ _) = _
      congr 2
    · rw [if_neg small]
      exact decimalToJson_of_units low high (Decimal.units_ofInt _)
  | .number (.double _), normal => normal.elim
  | .string s, _ => ⟨.string s, rfl, rfl⟩
  | .array items, normal => by
    obtain ⟨values, read, written⟩ := exists_ofJsonItems items normal
    refine ⟨.sequence values, ?_, congrArg Json.array written⟩
    show (ofJsonItems items).map Value.sequence = _
    rw [read]
    rfl
  | .object entries, normal => by
    obtain ⟨fields, read, written⟩ := exists_ofJsonEntries entries normal.2
    refine ⟨.record fields, ?_, ?_⟩
    · show (ofJsonEntries entries).map Value.record = _
      rw [read]
      rfl
    · show Json.object (Json.ordered (toJsonFields fields)) = _
      rw [written, normal.1.ordered_eq]

/-- `exists_ofJson` on items. -/
theorem exists_ofJsonItems : (items : List Json) → Json.NormalItems items →
    ∃ values, ofJsonItems items = .ok values ∧ toJsonItems values = items
  | [], _ => ⟨[], rfl, rfl⟩
  | item :: rest, normal => by
    obtain ⟨v, read, written⟩ := exists_ofJson item normal.1
    obtain ⟨values, reads, writtens⟩ := exists_ofJsonItems rest normal.2
    refine ⟨v :: values, ?_, ?_⟩
    · unfold ofJsonItems
      rw [read, reads]
      rfl
    · unfold toJsonItems
      rw [written, writtens]

/-- `exists_ofJson` on the values of entries. -/
theorem exists_ofJsonEntries :
    (entries : List (String × Json)) → Json.NormalEntries entries →
    ∃ fields, ofJsonEntries entries = .ok fields ∧ toJsonFields fields = entries
  | [], _ => ⟨[], rfl, rfl⟩
  | (key, item) :: rest, normal => by
    obtain ⟨v, read, written⟩ := exists_ofJson item normal.1
    obtain ⟨fields, reads, writtens⟩ := exists_ofJsonEntries rest normal.2
    refine ⟨(key, v) :: fields, ?_, ?_⟩
    · unfold ofJsonEntries
      rw [read, reads]
      rfl
    · unfold toJsonFields
      rw [written, writtens]

end

end Value

end FieldExpr
