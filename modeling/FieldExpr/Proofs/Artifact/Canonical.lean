import FieldExpr.Digest.Basic
import FieldExpr.Proofs.Artifact.RoundTrip
import FieldExpr.Proofs.Json.Reading

/-!
# Canonical bytes

Programs that are the same have one artifact, because the document of a program
is that of its canonical form. Programs that are not have different artifacts,
because the canonical form is read back from them. An artifact is a normal
document with sorted keys already, so its bytes stand for it: canonical bytes
decide whether programs are the same.
-/

namespace FieldExpr

/-! ## Artifacts are normal documents -/

namespace Json

theorem normalEntries_iff {entries : List (String × Json)} :
    NormalEntries entries ↔ ∀ entry ∈ entries, entry.2.Normal := by
  induction entries with
  | nil => exact ⟨fun _ entry mem => absurd mem List.not_mem_nil, fun _ => trivial⟩
  | cons entry rest ih =>
    rw [List.forall_mem_cons, ← ih]
    rfl

theorem normal_ofEntries {entries : List (String × Json)}
    (normal : ∀ entry ∈ entries, entry.2.Normal) :
    (ofEntries entries).Normal :=
  ⟨ordered_ascending entries, normalEntries_iff.mpr fun entry mem =>
    normal entry (mem_of_mem_ordered mem)⟩

theorem normal_ofUInt64 (n : UInt64) : (ofUInt64 n).Normal := trivial

mutual

/-- Sorting the keys of a normal document changes nothing. -/
theorem sortKeys_of_normal : (j : Json) → j.Normal → j.sortKeys = j
  | .null, _ => rfl
  | .boolean _, _ => rfl
  | .number _, _ => rfl
  | .string _, _ => rfl
  | .array items, normal => by
    rw [sortKeys, sortKeysItems_of_normal items normal]
  | .object entries, normal => by
    rw [sortKeys, sortKeysEntries_of_normal entries normal.2, ofEntries,
      normal.1.ordered_eq]

/-- `sortKeys_of_normal` on items. -/
theorem sortKeysItems_of_normal :
    (items : List Json) → NormalItems items → sortKeysItems items = items
  | [], _ => rfl
  | item :: rest, normal => by
    rw [sortKeysItems, sortKeys_of_normal item normal.1,
      sortKeysItems_of_normal rest normal.2]

/-- `sortKeys_of_normal` on entries. -/
theorem sortKeysEntries_of_normal :
    (entries : List (String × Json)) → NormalEntries entries →
    sortKeysEntries entries = entries
  | [], _ => rfl
  | (key, value) :: rest, normal => by
    rw [sortKeysEntries, sortKeys_of_normal value normal.1,
      sortKeysEntries_of_normal rest normal.2]

end

end Json

namespace Value

theorem normal_tagged (kind : ValueKind) {payload : Json}
    (normal : payload.Normal) :
    (toTagged.tagged kind payload).Normal := by
  refine Json.normal_ofEntries fun entry mem => ?_
  simp only [List.mem_cons, List.not_mem_nil, or_false] at mem
  rcases mem with rfl | rfl
  · trivial
  · exact normal

mutual

theorem normal_toTagged : (v : Value) → v.toTagged.Normal
  | .unit => normal_tagged _ trivial
  | .boolean _ => normal_tagged _ trivial
  | .integer _ => normal_tagged _ trivial
  | .decimal _ => normal_tagged _ trivial
  | .string _ => normal_tagged _ trivial
  | .sequence items => normal_tagged _ (normal_toTaggedItems items)
  | .record fields =>
    normal_tagged _ (Json.normal_ofEntries (normal_toTaggedFields fields))

theorem normal_toTaggedItems :
    (items : List Value) → Json.NormalItems (toTaggedItems items)
  | [] => trivial
  | v :: rest => ⟨normal_toTagged v, normal_toTaggedItems rest⟩

theorem normal_toTaggedFields : (fields : List (String × Value)) →
    ∀ entry ∈ toTaggedFields fields, entry.2.Normal
  | [], _, mem => by cases mem
  | (_, v) :: rest, entry, mem => by
    rcases List.mem_cons.mp mem with first | later
    · rw [first]
      exact normal_toTagged v
    · exact normal_toTaggedFields rest entry later

end

end Value

namespace Program

theorem normal_nodeDocument (kind : NodeKind) {members : List (String × Json)}
    (normal : ∀ member ∈ members, member.2.Normal) :
    (nodeDocument kind members).Normal := by
  refine Json.normal_ofEntries fun entry mem => ?_
  rcases List.mem_cons.mp mem with first | later
  · rw [first]
    trivial
  · exact normal entry later

theorem normal_toDocument (p : Program) : p.toDocument.Normal := by
  induction p with
  | identity => exact normal_nodeDocument _ (by simp)
  | lookup b => exact normal_nodeDocument _ (by simp [Json.normal_ofUInt64])
  | immediate inner ih => exact normal_nodeDocument _ (by simp [ih])
  | defer inner ih => exact normal_nodeDocument _ (by simp [ih])
  | functionDef b body input bodyIH inputIH =>
    exact normal_nodeDocument _ (by simp [Json.normal_ofUInt64, bodyIH, inputIH])
  | literal v shape =>
    exact normal_nodeDocument _ (by simp [v.normal_toTagged, Json.Normal])
  | pipe left right leftIH rightIH =>
    exact normal_nodeDocument _ (by simp [leftIH, rightIH])
  | equalTo tag left right leftIH rightIH =>
    exact normal_nodeDocument _ (by simp [leftIH, rightIH, Json.Normal])
  | binaryMath op tag left right leftIH rightIH =>
    exact normal_nodeDocument _ (by simp [leftIH, rightIH, Json.Normal])
  | unaryMath op tag operand ih =>
    exact normal_nodeDocument _ (by simp [ih, Json.Normal])
  | binaryLogical op left right leftIH rightIH =>
    exact normal_nodeDocument _ (by simp [leftIH, rightIH, Json.Normal])
  | not operand ih => exact normal_nodeDocument _ (by simp [ih, Json.Normal])
  | diverge condition onTrue onFalse conditionIH trueIH falseIH =>
    exact normal_nodeDocument _
      (by simp [conditionIH, trueIH, falseIH, Json.Normal])
  | tupleGetIndex tuple index ih =>
    exact normal_nodeDocument _ (by simp [ih, Json.normal_ofUInt64])

theorem normal_toArtifact (p : Program) : p.toArtifact.Normal := by
  refine Json.normal_ofEntries fun entry mem => ?_
  simp only [List.mem_cons, List.not_mem_nil, or_false] at mem
  rcases mem with rfl | rfl
  · trivial
  · exact p.normal_toDocument

end Program

/-! ## Documents of canonical forms -/

mutual

/-- The document of a value is that of its canonical form. -/
theorem Value.toTagged_canonical : (v : Value) → v.canonical.toTagged = v.toTagged
  | .unit => rfl
  | .boolean _ => rfl
  | .integer _ => rfl
  | .decimal d => by
    show toTagged (.decimal d.normalize) = _
    rw [toTagged, toTagged, (Decimal.normalize_isNormal d).normalize_eq]
  | .string _ => rfl
  | .sequence items => by
    show toTagged (.sequence (canonicalItems items)) = _
    rw [toTagged, toTagged, toTaggedItems_canonicalItems items]
  | .record fields => by
    have parts := toTaggedFields_canonicalFields fields
    rw [toTaggedFields_eq, toTaggedFields_eq] at parts
    show toTagged (.record (Json.ordered (canonicalFields fields))) = _
    rw [toTagged, toTagged, Json.ofEntries, Json.ofEntries, toTaggedFields_eq,
      toTaggedFields_eq, ← Json.ordered_map, parts,
      (Json.ordered_ascending _).ordered_eq]

theorem Value.toTaggedItems_canonicalItems : (items : List Value) →
    toTaggedItems (canonicalItems items) = toTaggedItems items
  | [] => rfl
  | v :: rest => by
    rw [canonicalItems, toTaggedItems, toTaggedItems, toTagged_canonical v,
      toTaggedItems_canonicalItems rest]

theorem Value.toTaggedFields_canonicalFields : (fields : List (String × Value)) →
    toTaggedFields (canonicalFields fields) = toTaggedFields fields
  | [] => rfl
  | (name, v) :: rest => by
    rw [canonicalFields, toTaggedFields, toTaggedFields, toTagged_canonical v,
      toTaggedFields_canonicalFields rest]

end

namespace Program

/-- The document of a program is that of its canonical form. -/
theorem toDocument_canonical (p : Program) :
    p.canonical.toDocument = p.toDocument := by
  unfold canonical
  induction p <;> simp_all [mapLiterals, toDocument, Value.toTagged_canonical]

/-- Well-formed programs have one artifact exactly when they are the same. -/
theorem toArtifact_eq_iff {p q : Program} (first : p.WellFormed)
    (second : q.WellFormed) :
    p.toArtifact = q.toArtifact ↔ p.same q = true := by
  rw [same_iff_canonical first second]
  constructor
  · -- Both canonical forms are read from the one artifact.
    intro same
    have read := p.ofArtifactUnchecked_toArtifact
    rw [same, q.ofArtifactUnchecked_toArtifact] at read
    exact (Except.ok.inj read).symm
  · intro same
    unfold toArtifact
    rw [← p.toDocument_canonical, same, q.toDocument_canonical]

theorem toArtifact_canonical (p : Program) :
    p.canonical.toArtifact = p.toArtifact := by
  unfold toArtifact
  rw [toDocument_canonical]

/-- A well-formed program is the same as its canonical form. -/
theorem canonical_same {p : Program} (wellFormed : p.WellFormed) :
    p.canonical.same p = true :=
  (toArtifact_eq_iff wellFormed.canonical wellFormed).mp p.toArtifact_canonical

/-- The canonical bytes are those of the artifact, whose keys are sorted already. -/
theorem canonicalBytes_eq (p : Program) :
    p.canonicalBytes = Text.utf8 (p.toArtifact.write []) := by
  unfold canonicalBytes canonicalChars
  rw [Json.sortKeys_of_normal _ p.normal_toArtifact]
  rfl

theorem canonicalBytes_eq_iff (p q : Program) :
    p.canonicalBytes = q.canonicalBytes ↔ p.toArtifact = q.toArtifact := by
  rw [canonicalBytes_eq, canonicalBytes_eq]
  constructor
  · intro same
    exact Json.write_injective p.normal_toArtifact q.normal_toArtifact same
  · intro same
    rw [same]

/-- Canonical bytes decide whether programs are the same. Programs that are the
same share a digest, and those that are not hash different bytes. -/
theorem canonicalBytes_eq_iff_same {p q : Program} (first : p.WellFormed)
    (second : q.WellFormed) :
    (p.canonicalBytes = q.canonicalBytes ↔ p.same q = true) ∧
      (p.same q = true → p.digest = q.digest) ∧
      (p.same q = false → p.canonicalBytes ≠ q.canonicalBytes) := by
  have decides : p.canonicalBytes = q.canonicalBytes ↔ p.same q = true :=
    (canonicalBytes_eq_iff p q).trans (toArtifact_eq_iff first second)
  refine ⟨decides, ?_, ?_⟩
  · intro same
    unfold digest
    simp only [decides.mpr same]
  · intro different bytes
    rw [decides.mp bytes] at different
    cases different

/-- A record with one half, written with one digit. -/
def halfFirst : Program :=
  .literal (.record [
    ("half", .decimal { negative := false, mantissa := 5, scale := 1 }),
    ("rest", .unit)]) .record

/-- The same record with its fields in the other order, and one half written
with two digits. -/
def halfLast : Program :=
  .literal (.record [
    ("rest", .unit),
    ("half", .decimal { negative := false, mantissa := 50, scale := 2 })]) .record

theorem canonicalBytes_halfFirst :
    halfFirst.canonicalBytes = halfLast.canonicalBytes := by
  have first : halfFirst.WellFormed := by
    simp [WellFormed, halfFirst, literals, Value.WellFormed, Value.WellFormedFields]
  have last : halfLast.WellFormed := by
    simp [WellFormed, halfLast, literals, Value.WellFormed, Value.WellFormedFields]
  exact (canonicalBytes_eq_iff_same first last).1.mpr (by decide)

end Program

end FieldExpr
