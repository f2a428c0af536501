import FieldExpr.Artifact.Reading
import FieldExpr.Proofs.Decimal.Text
import FieldExpr.Proofs.Program.Canonical

/-!
# Reading what was written

Reading the document of a program gives its canonical form, whatever the order
in which the members of objects were written. A reader finds a member by its
name, so it is enough to know what every name finds in the document
(`Json.lookup_ordered`).
-/

namespace FieldExpr

/-! ## Names -/

@[simp]
theorem ValueKind.ofName?_name (kind : ValueKind) :
    ofName? kind.name = some kind := by
  cases kind <;> rfl

@[simp]
theorem NodeKind.ofName?_name (kind : NodeKind) :
    ofName? kind.name = some kind := by
  cases kind <;> rfl

@[simp]
theorem Shape.ofName?_name (shape : Shape) : ofName? shape.name = some shape := by
  cases shape <;> rfl

@[simp]
theorem EqualityTag.ofName?_name (tag : EqualityTag) :
    ofName? tag.name = some tag := by
  cases tag <;> rfl

@[simp]
theorem NumericTag.ofName?_name (tag : NumericTag) :
    ofName? tag.name = some tag := by
  cases tag <;> rfl

@[simp]
theorem BinaryMathOp.ofName?_name (op : BinaryMathOp) :
    ofName? op.name = some op := by
  cases op <;> rfl

@[simp]
theorem UnaryMathOp.ofName?_name (op : UnaryMathOp) :
    ofName? op.name = some op := by
  cases op
  rfl

@[simp]
theorem BinaryLogicalOp.ofName?_name (op : BinaryLogicalOp) :
    ofName? op.name = some op := by
  cases op <;> rfl

/-- No operation of two numbers has the name of one on a single number. -/
theorem BinaryMathOp.ofName?_unary (op : UnaryMathOp) :
    BinaryMathOp.ofName? op.name = none := by
  cases op
  rfl

theorem BinaryLogicalOp.name_ne (op : BinaryLogicalOp) :
    op.name ≠ "not" ∧ op.name ≠ "diverge" := by
  cases op <;> decide

/-! ## Numbers -/

@[simp]
theorem Json.asUInt64?_ofUInt64 (n : UInt64) :
    (Json.ofUInt64 n).asUInt64? = some n := by
  show (if (0 : Int) ≤ n.toNat then some (UInt64.ofNat (n.toNat : Int).toNat)
    else none) = _
  rw [if_pos (Int.natCast_nonneg _), Int.toNat_natCast, UInt64.ofNat_toNat]

@[simp]
theorem Json.asInt64?_ofInt64 (n : Int64) :
    (Json.number (.ofInt64 n)).asInt64? = some n := by
  show (if n.toInt < 0x8000000000000000 then some (Int64.ofInt n.toInt)
    else none) = _
  have high : n.toInt < 0x8000000000000000 := Int64.toInt_lt n
  rw [if_pos high, Int64.ofInt_toInt]

/-! ## Results -/

@[simp]
theorem orError_some {ε α : Type} (error : ε) (a : α) :
    orError error (some a) = .ok a := rfl

@[simp]
theorem ok_bind {ε α β : Type} (a : α) (f : α → Except ε β) :
    (Except.ok a >>= f) = f a := rfl

@[simp]
theorem pure_eq_ok {ε α : Type} (a : α) : (pure a : Except ε α) = .ok a := rfl

theorem bind_eq_ok_iff {ε α β : Type} {x : Except ε α} {f : α → Except ε β}
    {b : β} :
    x >>= f = .ok b ↔ ∃ a, x = .ok a ∧ f a = .ok b := by
  constructor
  · intro result
    cases x with
    | error e => cases result
    | ok a => exact ⟨a, rfl, result⟩
  · rintro ⟨a, rfl, result⟩
    exact result

theorem map_eq_ok_iff {ε α β : Type} {x : Except ε α} {f : α → β} {b : β} :
    x.map f = .ok b ↔ ∃ a, x = .ok a ∧ f a = b := by
  cases x <;> simp [Except.map]

theorem orError_eq_ok_iff {ε α : Type} {error : ε} {o : Option α} {a : α} :
    orError error o = .ok a ↔ o = some a := by
  cases o <;> simp [orError]

/-! ## Values -/

namespace Value

theorem tagged_eq (kind : ValueKind) (payload : Json) :
    toTagged.tagged kind payload =
      .object [("type", .string kind.name), ("value", payload)] := by
  have ascending :
      Json.Ascending [("type", Json.string kind.name), ("value", payload)] := by
    refine List.pairwise_pair.mpr ?_
    show "type" < "value"
    decide
  show Json.object (Json.ordered _) = _
  rw [ascending.ordered_eq]

/-- A tagged payload is read as one of its kind. -/
theorem ofTagged_tagged (kind : ValueKind) (payload : Json) :
    ofTagged (toTagged.tagged kind payload) = ofPayload kind payload := by
  have named : taggedKind [("type", .string kind.name), ("value", payload)] =
      .ok kind := by
    show orError (ArtifactError.unknownTag "type" kind.name)
      (ValueKind.ofName? kind.name) = _
    rw [ValueKind.ofName?_name]
    rfl
  rw [tagged_eq, ofTagged, named]
  rfl

theorem toTaggedFields_eq (fields : List (String × Value)) :
    toTaggedFields fields = fields.map fun entry =>
      (entry.1, entry.2.toTagged) := by
  induction fields with
  | nil => rfl
  | cons entry rest ih =>
    show (entry.1, entry.2.toTagged) :: toTaggedFields rest = _
    rw [ih]
    rfl

/-- Fields are read one by one. -/
theorem ofTaggedFields_map (fields : List (String × Value))
    (read : ∀ entry ∈ fields, ofTagged entry.2.toTagged = .ok entry.2.canonical) :
    ofTaggedFields (fields.map fun entry => (entry.1, entry.2.toTagged)) =
      .ok (fields.map fun entry => (entry.1, entry.2.canonical)) := by
  induction fields with
  | nil => rfl
  | cons entry rest ih =>
    show (do
      let value ← ofTagged entry.2.toTagged
      let values ← ofTaggedFields
        (rest.map fun (entry : String × Value) => (entry.1, entry.2.toTagged))
      return (entry.1, value) :: values) = _
    rw [read entry List.mem_cons_self, ih fun entry mem =>
      read entry (List.mem_cons_of_mem _ mem)]
    rfl

mutual

/-- The document of a value is read as its canonical form. -/
theorem ofTagged_toTagged : (v : Value) → ofTagged v.toTagged = .ok v.canonical
  | .unit => by
    rw [toTagged, ofTagged_tagged]
    rfl
  | .boolean b => by
    rw [toTagged, ofTagged_tagged]
    rfl
  | .integer n => by
    rw [toTagged, ofTagged_tagged]
    show orError _ ((Json.number (.ofInt64 n)).asInt64?.map Value.integer) = _
    rw [Json.asInt64?_ofInt64]
    rfl
  | .decimal d => by
    rw [toTagged, ofTagged_tagged]
    show orError _
      ((Decimal.ofText? (String.ofList d.normalize.text).toList).map
        Value.decimal) = _
    rw [String.toList_ofList, (Decimal.normalize_isNormal d).ofText?_text]
    rfl
  | .string s => by
    rw [toTagged, ofTagged_tagged]
    rfl
  | .sequence items => by
    rw [toTagged, ofTagged_tagged]
    show (ofTaggedItems (toTaggedItems items)).map Value.sequence = _
    rw [ofTaggedItems_toTaggedItems items]
    rfl
  | .record fields => by
    rw [toTagged, ofTagged_tagged]
    show (ofTaggedFields (Json.ordered (toTaggedFields fields))).map
      Value.record = _
    rw [toTaggedFields_eq, Json.ordered_map, ofTaggedFields_map _ fun entry mem =>
      ofTagged_toTagged_of_mem fields (Json.mem_of_mem_ordered mem)]
    show Except.ok (Value.record _) =
      .ok (Value.record (Json.ordered (canonicalFields fields)))
    rw [canonicalFields_eq, Json.ordered_map]

/-- `ofTagged_toTagged` on items. -/
theorem ofTaggedItems_toTaggedItems : (items : List Value) →
    ofTaggedItems (toTaggedItems items) = .ok (canonicalItems items)
  | [] => rfl
  | v :: rest => by
    show (do
      let value ← ofTagged v.toTagged
      let values ← ofTaggedItems (toTaggedItems rest)
      return value :: values) = _
    rw [ofTagged_toTagged v, ofTaggedItems_toTaggedItems rest]
    rfl

/-- `ofTagged_toTagged` for the value of every field. -/
theorem ofTagged_toTagged_of_mem :
    (fields : List (String × Value)) → ∀ {entry : String × Value},
    entry ∈ fields → ofTagged entry.2.toTagged = .ok entry.2.canonical
  | [], _, mem => by cases mem
  | (name, v) :: rest, entry, mem => by
    rcases List.mem_cons.mp mem with first | later
    · rw [first]
      exact ofTagged_toTagged v
    · exact ofTagged_toTagged_of_mem rest later

end

end Value

/-! ## Programs -/

namespace Program

/-- A child is the program of the first member under its name. -/
theorem child_eq (kind field : String) (entries : List (String × Json)) :
    child kind field entries =
      orError (.missingField kind field) (entries.lookup field) >>= ofDocument := by
  induction entries with
  | nil => rfl
  | cons entry rest ih =>
    obtain ⟨key, document⟩ := entry
    rw [child, Json.lookup_cons_if]
    by_cases same : key = field
    · rw [if_pos same, if_pos same.symm]
      rfl
    · rw [if_neg same, if_neg (Ne.symm same), ih]

section

-- A member of a node's document is found under its name, wherever the names put it.
attribute [local simp] nodeDocument ofDocument Json.ofEntries
  Json.lookup_ordered Json.lookup_cons_if Json.asString?

/-- The document of a program is read as its canonical form. -/
theorem ofDocument_toDocument (p : Program) :
    ofDocument p.toDocument = .ok p.canonical := by
  unfold canonical
  induction p with
  | identity => simp [toDocument, mapLiterals]
  | lookup b => simp [toDocument, mapLiterals, Members.binding, Members.word,
    Members.get]
  | immediate inner ih => simp [toDocument, mapLiterals, child_eq, ih]
  | defer inner ih => simp [toDocument, mapLiterals, child_eq, ih]
  | functionDef b body input bodyIH inputIH =>
    simp [toDocument, mapLiterals, Members.binding, Members.word, Members.get,
      child_eq, bodyIH, inputIH]
  | literal v shape =>
    simp [toDocument, mapLiterals, Members.tag, Members.string, Members.get,
      Value.ofTagged_toTagged]
  | pipe left right leftIH rightIH =>
    simp [toDocument, mapLiterals, child_eq, leftIH, rightIH]
  | equalTo tag left right leftIH rightIH =>
    simp [toDocument, mapLiterals, Members.tag, Members.string, Members.get,
      child_eq, leftIH, rightIH]
  | binaryMath op tag left right leftIH rightIH =>
    simp [toDocument, mapLiterals, Members.tag, Members.string, Members.get,
      child_eq, leftIH, rightIH]
  | unaryMath op tag operand ih =>
    -- No operation on two numbers has this name, so the reader goes on to
    -- those on one.
    simp [toDocument, mapLiterals, Members.tag, Members.string,
      Members.get, child_eq, BinaryMathOp.ofName?_unary, ih]
  | binaryLogical op left right leftIH rightIH =>
    -- Negation and choice are of the same kind, and are told apart from the
    -- connectives by name first.
    simp [toDocument, mapLiterals, Members.string, Members.get, child_eq,
      op.name_ne, leftIH, rightIH]
  | not operand ih =>
    simp [toDocument, mapLiterals, Members.string, Members.get, child_eq, ih]
  | diverge condition onTrue onFalse conditionIH trueIH falseIH =>
    simp [toDocument, mapLiterals, Members.string, Members.get, child_eq,
      conditionIH, trueIH, falseIH]
  | tupleGetIndex tuple index ih =>
    simp [toDocument, mapLiterals, Members.word, Members.get, child_eq, ih]

/-- The envelope of a program is read as the canonical form of the program. -/
theorem ofArtifactUnchecked_toArtifact (p : Program) :
    ofArtifactUnchecked p.toArtifact = .ok p.canonical := by
  simp [toArtifact, ofArtifactUnchecked, Json.get?, ofDocument_toDocument]

end

end Program

end FieldExpr
