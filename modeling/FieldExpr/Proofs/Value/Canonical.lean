import FieldExpr.Proofs.Decimal.Value
import FieldExpr.Proofs.Json.Order
import FieldExpr.Value.Basic

/-!
# Canonical values

Equality of values forgets the order of record fields and the scale and sign of
zero of decimals, and nothing else. The canonical form of a value fixes what
equality forgets: fields in ascending order of their names, and normal decimals.
Well-formed values are the same exactly when they have one canonical form.
-/

namespace FieldExpr.Value

mutual

/-- The value with fields in ascending order and normal decimals, at every level. -/
def canonical : Value → Value
  | .decimal d => .decimal d.normalize
  | .sequence items => .sequence (canonicalItems items)
  | .record fields => .record (Json.ordered (canonicalFields fields))
  | other => other

/-- `canonical` on items. -/
def canonicalItems : List Value → List Value
  | [] => []
  | v :: rest => v.canonical :: canonicalItems rest

/-- `canonical` on the values of fields. -/
def canonicalFields : List (String × Value) → List (String × Value)
  | [] => []
  | (name, v) :: rest => (name, v.canonical) :: canonicalFields rest

end

theorem canonicalFields_eq (fields : List (String × Value)) :
    canonicalFields fields = fields.map fun entry =>
      (entry.1, entry.2.canonical) := by
  induction fields with
  | nil => rfl
  | cons entry rest ih =>
    show (entry.1, entry.2.canonical) :: canonicalFields rest = _
    rw [ih]
    rfl

theorem names_canonicalFields (fields : List (String × Value)) :
    (canonicalFields fields).map (·.1) = fields.map (·.1) := by
  rw [canonicalFields_eq, List.map_map]
  rfl

theorem lookup_canonicalFields (fields : List (String × Value)) (name : String) :
    (canonicalFields fields).lookup name = (fields.lookup name).map canonical := by
  rw [canonicalFields_eq, lookup_map_values]

theorem wellFormedItems_iff (items : List Value) :
    WellFormedItems items ↔ ∀ v ∈ items, v.WellFormed := by
  induction items with
  | nil => simp [WellFormedItems]
  | cons v rest ih =>
    show v.WellFormed ∧ WellFormedItems rest ↔ _
    rw [List.forall_mem_cons, ih]

theorem wellFormedFields_iff (fields : List (String × Value)) :
    WellFormedFields fields ↔ ∀ entry ∈ fields, entry.2.WellFormed := by
  induction fields with
  | nil => simp [WellFormedFields]
  | cons entry rest ih =>
    show entry.2.WellFormed ∧ WellFormedFields rest ↔ _
    rw [List.forall_mem_cons, ih]

theorem wellFormed_of_lookup {fields : List (String × Value)}
    (wellFormed : WellFormedFields fields) {name : String} {v : Value}
    (found : fields.lookup name = some v) : v.WellFormed :=
  (wellFormedFields_iff fields).mp wellFormed (name, v) (mem_of_lookup found)

/-- Records of distinct names have one canonical form when they have as many
fields and each field of the one finds its canonical value in the other. -/
theorem ordered_canonicalFields_eq_iff {as bs : List (String × Value)}
    (first : (as.map (·.1)).Nodup) (second : (bs.map (·.1)).Nodup) :
    Json.ordered (canonicalFields as) = Json.ordered (canonicalFields bs) ↔
      as.length = bs.length ∧ ∀ entry ∈ as, (bs.lookup entry.1).map canonical =
        some entry.2.canonical := by
  have first' : ((canonicalFields as).map (·.1)).Nodup := by
    rwa [names_canonicalFields]
  have second' : ((canonicalFields bs).map (·.1)).Nodup := by
    rwa [names_canonicalFields]
  rw [Json.ordered_eq_iff first' second', Json.lookups_eq_iff first' second',
    canonicalFields_eq as, List.length_map, canonicalFields_eq bs,
    List.length_map, ← canonicalFields_eq bs]
  refine and_congr_right fun _ => ?_
  simp only [List.mem_map, forall_exists_index, and_imp,
    forall_apply_eq_imp_iff₂, lookup_canonicalFields]

mutual

/-- The canonical form of a well-formed value is well formed. -/
theorem WellFormed.canonical : (v : Value) → v.WellFormed → v.canonical.WellFormed
  | .sequence items, wellFormed => WellFormed.canonicalItems items wellFormed
  | .record fields, wellFormed => by
    refine ⟨(Json.ordered_ascending _).distinct, (wellFormedFields_iff _).mpr ?_⟩
    intro entry mem
    exact (wellFormedFields_iff _).mp
      (WellFormed.canonicalFields fields wellFormed.2) entry
      (Json.mem_of_mem_ordered mem)
  | .unit, _ => trivial
  | .boolean _, _ => trivial
  | .integer _, _ => trivial
  | .decimal _, _ => trivial
  | .string _, _ => trivial

theorem WellFormed.canonicalItems : (items : List Value) → WellFormedItems items →
    WellFormedItems (Value.canonicalItems items)
  | [], _ => trivial
  | v :: rest, wellFormed =>
    ⟨WellFormed.canonical v wellFormed.1,
      WellFormed.canonicalItems rest wellFormed.2⟩

theorem WellFormed.canonicalFields :
    (fields : List (String × Value)) → WellFormedFields fields →
    WellFormedFields (Value.canonicalFields fields)
  | [], _ => trivial
  | (_, v) :: rest, wellFormed =>
    ⟨WellFormed.canonical v wellFormed.1,
      WellFormed.canonicalFields rest wellFormed.2⟩

end

mutual

/-- Well-formed values are the same exactly when they have one canonical form. -/
theorem same_iff_canonical : (a b : Value) → a.WellFormed → b.WellFormed →
    (a.same b = true ↔ a.canonical = b.canonical)
  | .sequence as, b, first, second => by
    cases b with
    | sequence bs =>
      show sameItems as bs = true ↔
        Value.sequence (canonicalItems as) = .sequence (canonicalItems bs)
      rw [sameItems_iff_canonicalItems as bs first second, Value.sequence.injEq]
    | _ => simp [same, canonical]
  | .record as, b, first, second => by
    cases b with
    | record bs =>
      show (as.length == bs.length && sameFields as bs) = true ↔
        Value.record (Json.ordered (canonicalFields as)) =
          .record (Json.ordered (canonicalFields bs))
      rw [Value.record.injEq, ordered_canonicalFields_eq_iff first.1 second.1,
        Bool.and_eq_true, beq_iff_eq, sameFields_iff_lookup as bs first.2 second.2]
    | _ => simp [same, canonical]
  | .unit, b, _, _ => by cases b <;> simp [same, canonical]
  | .boolean _, b, _, _ => by cases b <;> simp [same, canonical]
  | .integer _, b, _, _ => by cases b <;> simp [same, canonical]
  | .string _, b, _, _ => by cases b <;> simp [same, canonical]
  | .decimal _, b, _, _ => by
    cases b <;> simp [same, canonical, Decimal.same_iff_normalize]

/-- `same_iff_canonical` on items. -/
theorem sameItems_iff_canonicalItems :
    (as bs : List Value) → WellFormedItems as → WellFormedItems bs →
    (sameItems as bs = true ↔ canonicalItems as = canonicalItems bs)
  | [], [], _, _ => by simp [sameItems]
  | [], _ :: _, _, _ => by simp [sameItems, canonicalItems]
  | _ :: _, [], _, _ => by simp [sameItems, canonicalItems]
  | a :: as, b :: bs, first, second => by
    show (a.same b && sameItems as bs) = true ↔
      a.canonical :: canonicalItems as = b.canonical :: canonicalItems bs
    rw [Bool.and_eq_true, same_iff_canonical a b first.1 second.1,
      sameItems_iff_canonicalItems as bs first.2 second.2, List.cons.injEq]

/-- `same_iff_canonical` on fields. -/
theorem sameFields_iff_lookup :
    (as bs : List (String × Value)) → WellFormedFields as → WellFormedFields bs →
    (sameFields as bs = true ↔
      ∀ entry ∈ as, (bs.lookup entry.1).map canonical = some entry.2.canonical)
  | [], _, _, _ => by simp [sameFields]
  | (name, a) :: as, bs, first, second => by
    rw [List.forall_mem_cons, ← sameFields_iff_lookup as bs first.2 second]
    show ((match bs.lookup name with
      | some b => a.same b
      | none => false) && sameFields as bs) = true ↔
        (bs.lookup name).map canonical = some a.canonical ∧ _
    rw [Bool.and_eq_true]
    refine and_congr_left fun _ => ?_
    cases found : bs.lookup name with
    | none => simp
    | some b =>
      show a.same b = true ↔ some b.canonical = some a.canonical
      rw [same_iff_canonical a b first.1 (wellFormed_of_lookup second found),
        Option.some.injEq, eq_comm]

end

end FieldExpr.Value
