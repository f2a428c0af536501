import FieldExpr.Evaluation.Evaluator
import FieldExpr.Proofs.Artifact.Acceptance
import FieldExpr.Proofs.Json.Nesting
import FieldExpr.Proofs.Program.Nodes

/-!
# The nesting of artifacts

An artifact has one level for the envelope, one for each level of the program,
and at most two for each level of a literal and one for its kind
(`nesting_toDocument_le`). So a program whose depth and literals keep to the
depth of a configuration stays below the nesting limit of its texts. Beside its
depth and its bindings this nesting is all that a program's text is refused for
(`ofBytes_canonicalBytes`). An evaluation counts no levels of a literal, so some
programs that run are refused as texts.
-/

namespace FieldExpr

/-! ## Values -/

namespace Value

mutual

/-- The number of sequences and records on the longest path into a value. -/
def nesting : Value → Nat
  | .sequence items => 1 + nestingItems items
  | .record fields => 1 + nestingFields fields
  | _ => 0

/-- The greatest nesting among items. -/
def nestingItems : List Value → Nat
  | [] => 0
  | v :: rest => max v.nesting (nestingItems rest)

/-- The greatest nesting among the values of fields. -/
def nestingFields : List (String × Value) → Nat
  | [] => 0
  | (_, v) :: rest => max v.nesting (nestingFields rest)

end

theorem nesting_tagged (kind : ValueKind) (payload : Json) :
    (toTagged.tagged kind payload).nesting = 1 + payload.nesting := by
  rw [tagged_eq]
  show 1 + max 0 (max payload.nesting 0) = _
  omega

mutual

/-- Each level of a value is a tagged object and its payload; what has no parts
is a tagged object. -/
theorem nesting_toTagged_le : (v : Value) → v.toTagged.nesting ≤ 2 * v.nesting + 1
  | .unit => Nat.le_of_eq (nesting_tagged _ _)
  | .boolean _ => Nat.le_of_eq (nesting_tagged _ _)
  | .integer _ => Nat.le_of_eq (nesting_tagged _ _)
  | .decimal _ => Nat.le_of_eq (nesting_tagged _ _)
  | .string _ => Nat.le_of_eq (nesting_tagged _ _)
  | .sequence items => by
    have inner := nestingItems_toTaggedItems_le items
    rw [toTagged, nesting_tagged]
    show 1 + (1 + Json.nestingItems (toTaggedItems items)) ≤
      2 * (1 + nestingItems items) + 1
    omega
  | .record fields => by
    have inner := Json.nesting_ofEntries_le (nesting_toTaggedFields_le fields)
    rw [toTagged, nesting_tagged]
    show 1 + _ ≤ 2 * (1 + nestingFields fields) + 1
    omega

/-- `nesting_toTagged_le` on items. -/
theorem nestingItems_toTaggedItems_le : (items : List Value) →
    Json.nestingItems (toTaggedItems items) ≤ 2 * nestingItems items + 1
  | [] => Nat.zero_le _
  | v :: rest => by
    have first := nesting_toTagged_le v
    have others := nestingItems_toTaggedItems_le rest
    rw [toTaggedItems, Json.nestingItems, nestingItems]
    omega

/-- `nesting_toTagged_le` for the value of every field. -/
theorem nesting_toTaggedFields_le : (fields : List (String × Value)) →
    ∀ entry ∈ toTaggedFields fields, entry.2.nesting ≤ 2 * nestingFields fields + 1
  | [], _, mem => by cases mem
  | (_, v) :: rest, entry, mem => by
    have first := nesting_toTagged_le v
    rw [nestingFields]
    rcases List.mem_cons.mp mem with rfl | later
    · show v.toTagged.nesting ≤ _
      omega
    · have others := nesting_toTaggedFields_le rest entry later
      omega

end

end Value

/-! ## Programs -/

namespace Program

@[simp]
theorem nesting_ofUInt64 (n : UInt64) : (Json.ofUInt64 n).nesting = 0 := rfl

@[simp]
theorem nesting_string (s : String) : (Json.string s).nesting = 0 := rfl

theorem nesting_nodeDocument_le {kind : NodeKind}
    {members : List (String × Json)} {bound : Nat} (pos : 0 < bound)
    (values : ∀ member ∈ members, member.2.nesting < bound) :
    (nodeDocument kind members).nesting ≤ bound := by
  have le : (nodeDocument kind members).nesting ≤ 1 + (bound - 1) := by
    refine Json.nesting_ofEntries_le fun entry mem => ?_
    rcases List.mem_cons.mp mem with rfl | later
    · exact Nat.zero_le _
    · exact Nat.le_sub_one_of_lt (values entry later)
  omega

section

-- What the members of each node's document have to keep to, one by one.
attribute [local simp] toDocument children Json.nesting nesting_ofUInt64
  Nat.lt_succ_iff

/-- A node takes one level above its children and its literal. -/
theorem nesting_toDocument_le_of_parts {p : Program} {n : Nat}
    (children : ∀ c ∈ p.children, c.toDocument.nesting ≤ n)
    (literal : ∀ v shape, p = .literal v shape → v.toTagged.nesting ≤ n) :
    p.toDocument.nesting ≤ n + 1 := by
  cases p with
  | literal v shape =>
    have value := literal v shape rfl
    exact nesting_nodeDocument_le (Nat.succ_pos n) (by simp [value])
  | _ =>
    refine nesting_nodeDocument_le (Nat.succ_pos n) ?_
    simp_all

end

/-- A document nests no deeper than its program and its deepest literal make it. -/
theorem nesting_toDocument_le (p : Program) {n : Nat}
    (shallow : ∀ v ∈ p.literals, v.nesting ≤ n) :
    p.toDocument.nesting ≤ p.depth + (2 * n + 1) := by
  induction p using byChildren with
  | step p ih =>
    have levels : p.toDocument.nesting ≤ (p.depth - 1 + (2 * n + 1)) + 1 := by
      refine nesting_toDocument_le_of_parts (fun c child => ?_)
        fun v shape same => ?_
      · have inner :=
          ih c child fun v mem =>
            shallow v (mem_literals_iff.mpr (.inr ⟨c, child, mem⟩))
        have deeper := depth_lt_of_child child
        omega
      · have value := v.nesting_toTagged_le
        have le := shallow v (mem_literals_iff.mpr (.inl ⟨shape, same⟩))
        omega
    have pos := p.depth_pos
    omega

/-- The envelope takes one level. -/
theorem nesting_toArtifact_le (p : Program) :
    p.toArtifact.nesting ≤ 1 + p.toDocument.nesting := by
  refine Json.nesting_ofEntries_le fun entry mem => ?_
  simp only [List.mem_cons, List.not_mem_nil, or_false] at mem
  rcases mem with rfl | rfl
  · exact Nat.zero_le _
  · exact Nat.le_refl _

section

-- A member of a node's document is found under its name, wherever the names put it.
attribute [local simp] toDocument nodeDocument Json.ofEntries Json.get?
  Json.lookup_ordered Json.lookup_cons_if

/-- The document of a child is a member of the document of its parent. -/
theorem get?_of_child {p c : Program} (child : c ∈ p.children) :
    ∃ name, p.toDocument.get? name = some c.toDocument := by
  cases p with
  | identity | lookup _ | literal _ _ => cases child
  | immediate inner | defer inner =>
    rw [List.mem_singleton.mp child]
    exact ⟨"inner", by simp⟩
  | functionDef b body input =>
    simp only [children, List.mem_cons, List.not_mem_nil, or_false] at child
    rcases child with rfl | rfl
    · exact ⟨"input", by simp⟩
    · exact ⟨"body", by simp⟩
  | pipe left right | equalTo _ left right | binaryMath _ _ left right
  | binaryLogical _ left right =>
    simp only [children, List.mem_cons, List.not_mem_nil, or_false] at child
    rcases child with rfl | rfl
    · exact ⟨"left", by simp⟩
    · exact ⟨"right", by simp⟩
  | unaryMath _ _ operand | not operand =>
    rw [List.mem_singleton.mp child]
    exact ⟨"operand", by simp⟩
  | diverge condition onTrue onFalse =>
    simp only [children, List.mem_cons, List.not_mem_nil, or_false] at child
    rcases child with rfl | rfl | rfl
    · exact ⟨"operand", by simp⟩
    · exact ⟨"is_true", by simp⟩
    · exact ⟨"is_false", by simp⟩
  | tupleGetIndex tuple _ =>
    rw [List.mem_singleton.mp child]
    exact ⟨"tuple", by simp⟩

theorem nesting_toDocument_pos (p : Program) : 0 < p.toDocument.nesting := by
  have node : ∀ kind members, 0 < (nodeDocument kind members).nesting := by
    intro kind members
    show 0 < 1 + _
    omega
  cases p <;> exact node _ _

/-- A document nests at least as deep as its program. -/
theorem depth_le_nesting (p : Program) : p.depth ≤ p.toDocument.nesting := by
  induction p using byChildren with
  | step p ih =>
    have levels : p.depth ≤ p.toDocument.nesting - 1 + 1 := by
      refine depth_le_of_children fun c child => ?_
      obtain ⟨name, found⟩ := get?_of_child child
      have inner := ih c child
      have below := Json.nesting_lt_of_get? found
      omega
    have pos := p.nesting_toDocument_pos
    omega

/-- A program is no deeper than its canonical text is long. -/
theorem depth_le_length (p : Program) : p.depth ≤ p.canonicalBytes.length := by
  have document : p.toArtifact.get? "program" = some p.toDocument := by
    simp [toArtifact]
  have inside := Json.nesting_lt_of_get? document
  have length := Json.nesting_le_length p.normal_toArtifact
  have depth := p.depth_le_nesting
  rw [canonicalBytes_eq]
  omega

end

/-! ## Texts of programs -/

/-- Reading the canonical text of a program: its nesting is the first thing that
can refuse it, and what decides after it is the program alone. -/
theorem ofBytes_canonicalBytes (config : EngineConfig) (p : Program) :
    ofBytes config p.canonicalBytes =
      if p.toArtifact.nesting ≤ nestingLimit config then
      (accept config p).map canonical
      else .error (.tooDeep (nestingLimit config + 1) (nestingLimit config)) := by
  have normal := p.normal_toArtifact
  unfold ofBytes
  rw [canonicalBytes_eq, Json.nestingExcess_write normal]
  by_cases fits : p.toArtifact.nesting ≤ nestingLimit config
  · rw [if_pos fits, if_pos fits, Json.parse_write normal]
    exact ofArtifact_eq_accept config p
  · rw [if_neg fits, if_neg fits]

/-- A program that is no deeper than evaluation may nest, and whose literals are
not either, is read back from its canonical text if its bindings are sound or
not checked; the scan before the parser never refuses the text. The limits stop
growing at the greatest machine word. Past it they still hold back no text,
because the length of a text is a machine word. -/
theorem ofBytes_of_shallow {p : Program} (wellFormed : p.WellFormed)
    (config : EngineConfig)
    (length : wordLimit < 3 * (config.maxDepth.toNat + 1) + 1 →
      p.canonicalBytes.length ≤ wordLimit)
    (shallow : p.depth ≤ config.maxDepth.toNat + 1)
    (literals : ∀ v ∈ p.literals, v.nesting ≤ config.maxDepth.toNat)
    (valid : config.validateOnDecode = true → p.validate = .ok ()) :
    Json.nestingExcess (3 * (config.maxDepth.toNat + 1) + 1) p.canonicalBytes =
      none ∧
      ∃ q, ofBytes config p.canonicalBytes = .ok q ∧ q.same p = true := by
  have normal := p.normal_toArtifact
  have levels : p.toArtifact.nesting ≤ 3 * (config.maxDepth.toNat + 1) + 1 := by
    have envelope := p.nesting_toArtifact_le
    have document := p.nesting_toDocument_le literals
    omega
  have short : p.toArtifact.nesting ≤ p.canonicalBytes.length := by
    rw [canonicalBytes_eq]
    exact Json.nesting_le_length normal
  have depth : p.depth ≤ depthLimit config := by
    have le := p.depth_le_length
    unfold depthLimit
    omega
  have nesting : p.toArtifact.nesting ≤ nestingLimit config := by
    unfold nestingLimit depthLimit
    omega
  constructor
  · rw [canonicalBytes_eq, Json.nestingExcess_write normal, if_pos levels]
  · rw [ofBytes_canonicalBytes, if_pos nesting, accept_eq_ok depth valid]
    exact ⟨_, rfl, canonical_same wellFormed⟩

/-- A record in a pipe, with brackets, quotes, a backslash and a control
character where a scan could stumble. -/
def bracketsInText : Program :=
  .pipe .identity (.literal (.record [("\x7b[\"", .string "]\\\x7d\x01")]) .any)

/-- Depth and literals of the program are the greatest that the
configuration allows. -/
theorem ofBytes_bracketsInText :
    Json.nestingExcess 7 bracketsInText.canonicalBytes = none ∧
      ∃ q, ofBytes { maxDepth := 1 } bracketsInText.canonicalBytes = .ok q ∧
      q.same bracketsInText = true := by
  have wellFormed : bracketsInText.WellFormed := by
    simp [WellFormed, bracketsInText, literals, Value.WellFormed,
      Value.WellFormedFields]
  have literals : ∀ v ∈ bracketsInText.literals, v.nesting ≤ 1 := by
    simp [bracketsInText, literals, Value.nesting, Value.nestingFields]
  exact ofBytes_of_shallow wellFormed { maxDepth := 1 } (by decide)
    (by decide) literals fun _ => rfl

/-! ## Programs that run -/

/-- A program with sound bindings is read back from its canonical text exactly
when its own depth and the nesting of the text keep to their limits. -/
theorem ofBytes_canonicalBytes_iff {p : Program} (wellFormed : p.WellFormed)
    (valid : p.validate = .ok ()) (config : EngineConfig) :
    (∃ q, ofBytes config p.canonicalBytes = .ok q ∧ q.same p = true) ↔
      p.depth ≤ depthLimit config ∧ p.toArtifact.nesting ≤ nestingLimit config := by
  rw [ofBytes_canonicalBytes]
  constructor
  · rintro ⟨q, read, _⟩
    by_cases nesting : p.toArtifact.nesting ≤ nestingLimit config
    · refine ⟨Nat.not_lt.mp fun deep => ?_, nesting⟩
      rw [if_pos nesting, accept_of_depth_lt deep] at read
      cases read
    · rw [if_neg nesting] at read
      cases read
  · rintro ⟨depth, nesting⟩
    rw [if_pos nesting, accept_eq_ok depth fun _ => valid]
    exact ⟨_, rfl, canonical_same wellFormed⟩

/-- A limit of one is the least under which the record in the pipe is read back. -/
theorem ofBytes_bracketsInText_iff :
    (∃ q, ofBytes { maxDepth := 1 } bracketsInText.canonicalBytes = .ok q ∧
      q.same bracketsInText = true) ∧
      ¬ ∃ q, ofBytes { maxDepth := 0 } bracketsInText.canonicalBytes = .ok q ∧
      q.same bracketsInText = true := by
  have wellFormed : bracketsInText.WellFormed := by
    simp [WellFormed, bracketsInText, literals, Value.WellFormed,
      Value.WellFormedFields]
  constructor
  · exact (ofBytes_canonicalBytes_iff wellFormed rfl { maxDepth := 1 }).mpr
      (by decide)
  · intro read
    exact absurd ((ofBytes_canonicalBytes_iff wellFormed rfl
      { maxDepth := 0 }).mp read).1 (by decide)

/-- An empty sequence inside a sequence. -/
def boxInBox : Program :=
  .literal (.sequence [.sequence []]) .any

/-- A literal may nest deeper than an evaluation. Evaluation gives it back whatever
its nesting, and its artifact is read, but the scan of its text refuses it. -/
theorem not_ofBytes_boxInBox :
    boxInBox.validate = .ok () ∧
      boxInBox.evaluate { maxDepth := 0 } {} .unit =
        .ok (.sequence [.sequence []]) ∧
      ofArtifact { maxDepth := 0 } boxInBox.toArtifact = .ok boxInBox ∧
      ofBytes { maxDepth := 0 } boxInBox.canonicalBytes =
        .error (.tooDeep 5 4) := by
  have deep : ¬ boxInBox.toArtifact.nesting ≤
    nestingLimit { maxDepth := 0 } := by decide
  refine ⟨rfl, rfl, rfl, ?_⟩
  rw [ofBytes_canonicalBytes, if_neg deep]
  rfl

end Program

end FieldExpr
