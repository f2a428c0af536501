import FieldExpr.Proofs.Artifact.Nesting
import FieldExpr.Proofs.Json.Building

/-!
# Storing what was read

A document is read as a program whose own document nests no deeper, because the
reader of documents makes one level of a program or of a literal from one level
of the document at least (`within_ofDocument`). So a program that was accepted
from a text has canonical bytes that keep to the same limits, and is read back
from them. Not every accepted program came from a text: the document of a
program can be accepted where its canonical bytes are refused for their nesting,
and that is the only difference between the two
(`ofBytes_canonicalBytes_eq_ofArtifact`).
-/

namespace FieldExpr

/-! ## Values -/

namespace Value

/-- A well-formed value whose document nests at most so many levels. -/
structure Within (levels : Nat) (v : Value) : Prop where
  wellFormed : v.WellFormed
  nesting : v.toTagged.nesting ≤ levels

theorem Within.mono {v : Value} {m n : Nat} (within : v.Within m) (le : m ≤ n) :
    v.Within n :=
  ⟨within.wellFormed, Nat.le_trans within.nesting le⟩

/-- A value without parts takes one level, whatever its payload. -/
theorem within_ofScalarPayload {kind : ValueKind} {payload : Json} {v : Value}
    (read : ofScalarPayload kind payload = .ok v) : v.Within 1 := by
  unfold ofScalarPayload at read
  rw [orError_eq_ok_iff] at read
  cases kind with
  | unit =>
    cases read
    exact ⟨trivial, Nat.le_of_eq (nesting_tagged _ _)⟩
  | boolean | integer | decimal | string =>
    obtain ⟨_, _, rfl⟩ := Option.map_eq_some_iff.mp read
    exact ⟨trivial, Nat.le_of_eq (nesting_tagged _ _)⟩
  | sequence | record => cases read

mutual

/-- A value nests no deeper than the document it was read from, and its records
have no field twice. -/
theorem within_ofTagged :
    (document : Json) → document.Keyed → ∀ {v : Value}, ofTagged document = .ok v →
    v.Within document.nesting
  | .object entries, keyed, v, read => by
    rw [ofTagged] at read
    obtain ⟨kind, -, read⟩ := bind_eq_ok_iff.mp read
    exact within_ofMember entries keyed.2 read
  | .null, _, _, read => nomatch read
  | .boolean _, _, _, read => nomatch read
  | .number _, _, _, read => nomatch read
  | .string _, _, _, read => nomatch read
  | .array _, _, _, read => nomatch read

theorem within_ofMember :
    (entries : List (String × Json)) → Json.KeyedEntries entries →
    ∀ {kind : ValueKind} {v : Value}, ofMember kind entries = .ok v →
    v.Within (1 + Json.nestingEntries entries)
  | [], _, _, _, read => (within_ofScalarPayload read).mono (Nat.le_refl 1)
  | (key, payload) :: rest, keyed, kind, v, read => by
    rw [ofMember] at read
    rw [Json.nestingEntries]
    split at read
    · exact (within_ofPayload payload keyed.1 read).mono (by omega)
    · exact (within_ofMember rest keyed.2 read).mono (by omega)

/-- The level of the tag comes on top of those of the payload. -/
theorem within_ofPayload :
    (payload : Json) → payload.Keyed → ∀ {kind : ValueKind} {v : Value},
    ofPayload kind payload = .ok v → v.Within (1 + payload.nesting)
  | .array items, keyed, kind, v, read => by
    rw [ofPayload] at read
    split at read
    · obtain ⟨values, parts, rfl⟩ := map_eq_ok_iff.mp read
      obtain ⟨wellFormed, nesting⟩ := within_ofTaggedItems items keyed parts
      refine ⟨wellFormed, ?_⟩
      rw [toTagged, nesting_tagged, Json.nesting, Json.nesting]
      omega
    · exact (within_ofScalarPayload read).mono (Nat.le_add_right ..)
  | .object entries, keyed, kind, v, read => by
    rw [ofPayload] at read
    split at read
    · obtain ⟨fields, parts, rfl⟩ := map_eq_ok_iff.mp read
      obtain ⟨names, within⟩ := within_ofTaggedFields entries keyed.2 parts
      have distinct : (fields.map (·.1)).Nodup := names ▸ keyed.1.distinct
      refine ⟨⟨distinct, (wellFormedFields_iff _).mpr fun field mem =>
        (within field mem).wellFormed⟩, ?_⟩
      have object : (Json.ofEntries (toTaggedFields fields)).nesting ≤
          1 + Json.nestingEntries entries := by
        refine Json.nesting_ofEntries_le fun entry mem => ?_
        rw [toTaggedFields_eq] at mem
        obtain ⟨field, field_mem, rfl⟩ := List.mem_map.mp mem
        exact (within field field_mem).nesting
      rw [toTagged, nesting_tagged, Json.nesting]
      omega
    · exact (within_ofScalarPayload read).mono (Nat.le_add_right ..)
  | .null, _, _, _, read => (within_ofScalarPayload read).mono (Nat.le_add_right ..)
  | .boolean _, _, _, _, read =>
    (within_ofScalarPayload read).mono (Nat.le_add_right ..)
  | .number _, _, _, _, read =>
    (within_ofScalarPayload read).mono (Nat.le_add_right ..)
  | .string _, _, _, _, read =>
    (within_ofScalarPayload read).mono (Nat.le_add_right ..)

theorem within_ofTaggedItems : (items : List Json) → Json.KeyedItems items →
    ∀ {values : List Value}, ofTaggedItems items = .ok values →
    WellFormedItems values ∧ Json.nestingItems (toTaggedItems values) ≤
      Json.nestingItems items
  | [], _, _, read => by
    cases read
    exact ⟨trivial, Nat.le_refl 0⟩
  | item :: rest, keyed, values, read => by
    rw [ofTaggedItems] at read
    obtain ⟨v, first, read⟩ := bind_eq_ok_iff.mp read
    obtain ⟨others, later, read⟩ := bind_eq_ok_iff.mp read
    cases read
    have within := within_ofTagged item keyed.1 first
    obtain ⟨wellFormed, nesting⟩ := within_ofTaggedItems rest keyed.2 later
    refine ⟨⟨within.wellFormed, wellFormed⟩, ?_⟩
    have le := within.nesting
    rw [toTaggedItems, Json.nestingItems, Json.nestingItems]
    omega

theorem within_ofTaggedFields :
    (entries : List (String × Json)) → Json.KeyedEntries entries →
    ∀ {fields : List (String × Value)}, ofTaggedFields entries = .ok fields →
    fields.map (·.1) = entries.map (·.1) ∧ ∀ field ∈ fields,
      field.2.Within (Json.nestingEntries entries)
  | [], _, _, read => by
    cases read
    exact ⟨rfl, fun field mem => absurd mem List.not_mem_nil⟩
  | (name, item) :: rest, keyed, fields, read => by
    rw [ofTaggedFields] at read
    obtain ⟨v, first, read⟩ := bind_eq_ok_iff.mp read
    obtain ⟨others, later, read⟩ := bind_eq_ok_iff.mp read
    cases read
    obtain ⟨names, within⟩ := within_ofTaggedFields rest keyed.2 later
    refine ⟨congrArg (name :: ·) names,
      List.forall_mem_cons.mpr ⟨?_, fun field mem => ?_⟩⟩
    · exact (within_ofTagged item keyed.1 first).mono (Nat.le_max_left ..)
    · exact (within field mem).mono (Nat.le_max_right ..)

end

end Value

/-! ## Programs -/

namespace Program

variable {p : Program}

/-- A well-formed program whose document nests at most so many levels. -/
structure Within (levels : Nat) (p : Program) : Prop where
  wellFormed : p.WellFormed
  nesting : p.toDocument.nesting ≤ levels

theorem Within.mono {m n : Nat} (within : p.Within m) (le : m ≤ n) : p.Within n :=
  ⟨within.wellFormed, Nat.le_trans within.nesting le⟩

theorem within_of_parts {n : Nat} (children : ∀ c ∈ p.children, c.Within n)
    (literal : ∀ v shape, p = .literal v shape → v.Within n) :
    p.Within (n + 1) := by
  constructor
  · intro v mem
    rcases mem_literals_iff.mp mem with ⟨shape, rfl⟩ | ⟨c, child, mem⟩
    · exact (literal v shape rfl).wellFormed
    · exact (children c child).wellFormed v mem
  · exact nesting_toDocument_le_of_parts (fun c child => (children c child).nesting)
      fun v shape same => (literal v shape same).nesting

/-- A program that is read from one of these members. -/
def IsMember (entries : List (String × Json)) (c : Program) : Prop :=
  ∃ kind field, child kind field entries = .ok c

/-- The children of a program are read from members of its document, and so
is the literal. -/
theorem parts_of_ofDocument {entries : List (String × Json)}
    (read : ofDocument (.object entries) = .ok p) :
    (∀ c ∈ p.children, IsMember entries c) ∧
      ∀ v shape, p = .literal v shape →
        ∃ document, entries.lookup "value" = some document ∧
        Value.ofTagged document = .ok v := by
  have one : ∀ {a : Program}, IsMember entries a → ∀ c ∈ [a], IsMember entries c :=
    fun first => List.forall_mem_singleton.mpr first
  have two : ∀ {a b : Program}, IsMember entries a → IsMember entries b →
      ∀ c ∈ [a, b], IsMember entries c :=
    fun first second => List.forall_mem_cons.mpr ⟨first, one second⟩
  have none : ∀ c ∈ ([] : List Program), IsMember entries c :=
    fun c mem => absurd mem List.not_mem_nil
  have plain : ∀ {q : Program}, (∀ v shape, q ≠ .literal v shape) →
      ∀ v shape, q = .literal v shape →
      ∃ document, entries.lookup "value" = some document ∧
      Value.ofTagged document = .ok v :=
    fun other v shape same => absurd same (other v shape)
  rw [ofDocument] at read
  obtain ⟨name, -, read⟩ := bind_eq_ok_iff.mp read
  obtain ⟨kind, -, read⟩ := bind_eq_ok_iff.mp read
  cases kind with
  | identity =>
    cases read
    exact ⟨none, plain (by simp)⟩
  | lookup =>
    obtain ⟨b, -, read⟩ := bind_eq_ok_iff.mp read
    cases read
    exact ⟨none, plain (by simp)⟩
  | immediate | defer =>
    obtain ⟨inner, found, read⟩ := bind_eq_ok_iff.mp read
    cases read
    exact ⟨one ⟨_, _, found⟩, plain (by simp)⟩
  | functionDef =>
    obtain ⟨b, -, read⟩ := bind_eq_ok_iff.mp read
    obtain ⟨body, found_body, read⟩ := bind_eq_ok_iff.mp read
    obtain ⟨input, found_input, read⟩ := bind_eq_ok_iff.mp read
    cases read
    exact ⟨two ⟨_, _, found_input⟩ ⟨_, _, found_body⟩, plain (by simp)⟩
  | literal =>
    obtain ⟨document, found, read⟩ := bind_eq_ok_iff.mp read
    obtain ⟨v, value, read⟩ := bind_eq_ok_iff.mp read
    obtain ⟨shape, -, read⟩ := bind_eq_ok_iff.mp read
    cases read
    refine ⟨none, fun w shape' same => ?_⟩
    cases same
    exact ⟨document, orError_eq_ok_iff.mp found, value⟩
  | pipe =>
    obtain ⟨left, found_left, read⟩ := bind_eq_ok_iff.mp read
    obtain ⟨right, found_right, read⟩ := bind_eq_ok_iff.mp read
    cases read
    exact ⟨two ⟨_, _, found_left⟩ ⟨_, _, found_right⟩, plain (by simp)⟩
  | equalTo =>
    obtain ⟨left, found_left, read⟩ := bind_eq_ok_iff.mp read
    obtain ⟨right, found_right, read⟩ := bind_eq_ok_iff.mp read
    obtain ⟨tag, -, read⟩ := bind_eq_ok_iff.mp read
    cases read
    exact ⟨two ⟨_, _, found_left⟩ ⟨_, _, found_right⟩, plain (by simp)⟩
  | math =>
    obtain ⟨tag, -, read⟩ := bind_eq_ok_iff.mp read
    obtain ⟨op, -, read⟩ := bind_eq_ok_iff.mp read
    split at read
    · obtain ⟨left, found_left, read⟩ := bind_eq_ok_iff.mp read
      obtain ⟨right, found_right, read⟩ := bind_eq_ok_iff.mp read
      cases read
      exact ⟨two ⟨_, _, found_left⟩ ⟨_, _, found_right⟩, plain (by simp)⟩
    · obtain ⟨op, -, read⟩ := bind_eq_ok_iff.mp read
      obtain ⟨operand, found, read⟩ := bind_eq_ok_iff.mp read
      cases read
      exact ⟨one ⟨_, _, found⟩, plain (by simp)⟩
  | logical =>
    obtain ⟨op, -, read⟩ := bind_eq_ok_iff.mp read
    split at read
    · obtain ⟨operand, found, read⟩ := bind_eq_ok_iff.mp read
      cases read
      exact ⟨one ⟨_, _, found⟩, plain (by simp)⟩
    · split at read
      · obtain ⟨condition, found_condition, read⟩ := bind_eq_ok_iff.mp read
        obtain ⟨onTrue, found_true, read⟩ := bind_eq_ok_iff.mp read
        obtain ⟨onFalse, found_false, read⟩ := bind_eq_ok_iff.mp read
        cases read
        have branches := two ⟨_, _, found_true⟩ ⟨_, _, found_false⟩
        exact ⟨List.forall_mem_cons.mpr ⟨⟨_, _, found_condition⟩, branches⟩,
          plain (by simp)⟩
      · obtain ⟨op, -, read⟩ := bind_eq_ok_iff.mp read
        obtain ⟨left, found_left, read⟩ := bind_eq_ok_iff.mp read
        obtain ⟨right, found_right, read⟩ := bind_eq_ok_iff.mp read
        cases read
        exact ⟨two ⟨_, _, found_left⟩ ⟨_, _, found_right⟩, plain (by simp)⟩
  | tupleGetIndex =>
    obtain ⟨tuple, found, read⟩ := bind_eq_ok_iff.mp read
    obtain ⟨index, -, read⟩ := bind_eq_ok_iff.mp read
    cases read
    exact ⟨one ⟨_, _, found⟩, plain (by simp)⟩

mutual

/-- A program nests no deeper than the document it was read from, and its
literals are well formed. -/
theorem within_ofDocument :
    (document : Json) → document.Keyed →
    ∀ {p : Program}, ofDocument document = .ok p →
    p.Within document.nesting
  | .object entries, keyed, p, read => by
    obtain ⟨children, literal⟩ := parts_of_ofDocument read
    rw [Json.nesting, Nat.add_comm]
    refine within_of_parts (fun c child => ?_) fun v shape same => ?_
    · obtain ⟨kind, field, found⟩ := children c child
      exact within_child entries keyed.2 found
    · obtain ⟨document, found, value⟩ := literal v shape same
      have mem := mem_of_lookup found
      exact (Value.within_ofTagged document
          (Json.keyedEntries_iff.mp keyed.2 _ mem) value).mono
        (Json.nestingEntries_le_iff.mp (Nat.le_refl _) _ mem)
  | .null, _, _, read => nomatch read
  | .boolean _, _, _, read => nomatch read
  | .number _, _, _, read => nomatch read
  | .string _, _, _, read => nomatch read
  | .array _, _, _, read => nomatch read

theorem within_child :
    (entries : List (String × Json)) → Json.KeyedEntries entries →
    ∀ {kind field : String} {c : Program}, child kind field entries = .ok c →
    c.Within (Json.nestingEntries entries)
  | [], _, _, _, _, read => nomatch read
  | (key, document) :: rest, keyed, kind, field, c, read => by
    rw [child] at read
    split at read
    · exact (within_ofDocument document keyed.1 read).mono (Nat.le_max_left ..)
    · exact (within_child rest keyed.2 read).mono (Nat.le_max_right ..)

end

/-- A document has a level more than the program in it at least, which is what
the envelope takes. -/
theorem within_ofArtifactUnchecked {document : Json} (keyed : document.Keyed)
    (read : ofArtifactUnchecked document = .ok p) :
    p.WellFormed ∧ p.toArtifact.nesting ≤ document.nesting := by
  unfold ofArtifactUnchecked at read
  obtain ⟨version, -, read⟩ := bind_eq_ok_iff.mp read
  split at read
  · cases read
  · obtain ⟨inner, found, read⟩ := bind_eq_ok_iff.mp read
    have found : document.get? "program" = some inner := orError_eq_ok_iff.mp found
    have within := within_ofDocument inner (Json.keyed_of_get? keyed found) read
    have below := Json.nesting_lt_of_get? found
    have envelope := p.nesting_toArtifact_le
    have inner_le := within.nesting
    exact ⟨within.wellFormed, by omega⟩

/-! ## Texts -/

/-- A program that was accepted from a text is well formed, and its artifact
keeps to the nesting limit. -/
theorem within_ofBytes {config : EngineConfig} {bytes : List UInt8}
    (read : ofBytes config bytes = .ok p) :
    p.WellFormed ∧ p.toArtifact.nesting ≤ nestingLimit config := by
  unfold ofBytes at read
  split at read
  · cases read
  · rename_i keeps
    split at read
    · rename_i document parsed
      obtain ⟨keyed, nesting⟩ := Json.parse_fits parsed
      have open_le : Json.peak {} .start bytes ≤ nestingLimit config :=
        Json.peak_le_of_nestingExcess keeps
      unfold ofArtifact at read
      obtain ⟨q, unchecked, accepted⟩ := bind_eq_ok_iff.mp read
      obtain ⟨rfl, -⟩ := accept_eq_ok_iff.mp accepted
      obtain ⟨wellFormed, artifact⟩ := within_ofArtifactUnchecked keyed unchecked
      exact ⟨wellFormed, by omega⟩
    · cases read

/-- Storing is stable: the canonical bytes of a program that was accepted from a
text, whatever its blanks, its order, its repeated keys and its spelling of
decimals, are accepted under the same configuration, as a program that is the
same and has the same canonical bytes and digest. -/
theorem ofBytes_canonicalBytes_of_ofBytes {config : EngineConfig}
    {bytes : List UInt8} (read : ofBytes config bytes = .ok p) :
    ∃ q, ofBytes config p.canonicalBytes = .ok q ∧ q.same p = true ∧
      q.canonicalBytes = p.canonicalBytes ∧
      q.digest = p.digest := by
  obtain ⟨wellFormed, nesting⟩ := within_ofBytes read
  have bytes_eq : p.canonical.canonicalBytes = p.canonicalBytes :=
    (canonicalBytes_eq_iff _ _).mpr p.toArtifact_canonical
  refine ⟨p.canonical, ?_, canonical_same wellFormed, bytes_eq, ?_⟩
  · rw [ofBytes_canonicalBytes, if_pos nesting, accept_of_ofBytes read]
    rfl
  · unfold digest
    simp only [bytes_eq]

/-- A text with blanks, a key twice, members in no order, a unit without a
payload and a decimal with a zero at its end. -/
def looseHalf : List UInt8 :=
  "\x7b\"program\": \x7b\"kind\": \"not\", ".toUTF8.data.toList ++
    "\"value\": \x7b\"type\": \"record\", ".toUTF8.data.toList ++
    "\"value\": \x7b\"rest\": \x7b\"type\": \"unit\"\x7d, ".toUTF8.data.toList ++
    "\"half\": \x7b\"value\": \"0.50\", ".toUTF8.data.toList ++
    "\"type\": \"decimal\"\x7d\x7d\x7d, ".toUTF8.data.toList ++
    "\"kind\": \"literal\", ".toUTF8.data.toList ++
    "\"constructor\": \"record\"\x7d, ".toUTF8.data.toList ++
    "\"version\": 1\x7d".toUTF8.data.toList

theorem ofBytes_looseHalf : ∃ p, ofBytes { maxDepth := 1 } looseHalf = .ok p ∧
    p.same halfFirst = true ∧
    p.canonicalBytes ≠ looseHalf ∧
    ∃ q, ofBytes { maxDepth := 1 } p.canonicalBytes = .ok q ∧ q.same p = true ∧
      q.canonicalBytes = p.canonicalBytes ∧ q.digest = p.digest := by
  have accepted : (ofBytes { maxDepth := 1 } looseHalf).toOption.any
      (fun p => p.same halfFirst && p.canonicalBytes != looseHalf) = true := by
        decide +kernel
  cases read : ofBytes { maxDepth := 1 } looseHalf with
  | error error =>
    rw [read] at accepted
    cases accepted
  | ok p =>
    rw [read] at accepted
    obtain ⟨same, other⟩ := (Bool.and_eq_true _ _).mp accepted
    exact ⟨p, rfl, same, bne_iff_ne.mp other,
      ofBytes_canonicalBytes_of_ofBytes read⟩

/-! ## Texts beside documents -/

/-- The canonical bytes of a program are accepted when its document is, and as
the same program, unless they nest too deep: then they are refused without a
look at the program. -/
theorem ofBytes_canonicalBytes_eq_ofArtifact (config : EngineConfig) (p : Program) :
    ofBytes config p.canonicalBytes =
      if p.toArtifact.nesting ≤ nestingLimit config then
      ofArtifact config p.toArtifact
      else .error (.tooDeep (nestingLimit config + 1) (nestingLimit config)) := by
  rw [ofBytes_canonicalBytes, ofArtifact_eq_accept]

/-- A sequence of one item. -/
def singleton : Program :=
  .literal (.sequence [.integer 1]) .any

/-- A program of one node is as shallow as programs get, and so its document is
accepted under every configuration. Its canonical bytes are refused, because the
limit has room for a literal without parts only. -/
theorem ofBytes_singleton :
    ofArtifact { maxDepth := 0 } singleton.toArtifact = .ok singleton ∧
      ofBytes { maxDepth := 0 } singleton.canonicalBytes =
        .error (.tooDeep 5 4) := by
  have deep : ¬ singleton.toArtifact.nesting ≤
    nestingLimit { maxDepth := 0 } := by decide
  refine ⟨rfl, ?_⟩
  rw [ofBytes_canonicalBytes, if_neg deep]
  rfl

end Program

end FieldExpr
