import FieldExpr.Proofs.Artifact.Canonical

/-!
# Which artifacts are accepted

Reading an artifact under a configuration decides on the canonical form of the
program that was written. It is as deep as the program and binds in the same
places, so depth and scopes decide as they would on the program itself: an
artifact is refused for its depth first, then for a defect in its bindings, and
for nothing else.
-/

namespace FieldExpr.Program

/-! ## Acceptance -/

section

variable {config : EngineConfig} {p : Program}

theorem accept_of_depth_lt (deep : depthLimit config < p.depth) :
    accept config p = .error (.tooDeep p.depth (depthLimit config)) := by
  unfold accept
  rw [if_pos deep]

theorem accept_of_defect {defect : ScopeError}
    (shallow : p.depth ≤ depthLimit config)
    (checks : config.validateOnDecode = true)
    (invalid : p.validate = .error defect) :
    accept config p = .error (.malformed defect) := by
  unfold accept
  rw [if_neg (Nat.not_lt.mpr shallow), if_pos checks, invalid]

theorem accept_eq_ok (shallow : p.depth ≤ depthLimit config)
    (valid : config.validateOnDecode = true → p.validate = .ok ()) :
    accept config p = .ok p := by
  unfold accept
  rw [if_neg (Nat.not_lt.mpr shallow)]
  split
  · rename_i checks
    rw [valid checks]
  · rfl

/-- What is accepted is given back, and keeps to the configuration. -/
theorem accept_eq_ok_iff {q : Program} : accept config p = .ok q ↔
    q = p ∧ p.depth ≤ depthLimit config ∧
    (config.validateOnDecode = true → p.validate = .ok ()) := by
  constructor
  · intro accepted
    have shallow : p.depth ≤ depthLimit config := by
      refine Nat.not_lt.mp fun deep => ?_
      rw [accept_of_depth_lt deep] at accepted
      cases accepted
    have valid : config.validateOnDecode = true → p.validate = .ok () := by
      intro checks
      cases validated : p.validate with
      | ok _ => rfl
      | error defect =>
        rw [accept_of_defect shallow checks validated] at accepted
        cases accepted
    rw [accept_eq_ok shallow valid] at accepted
    cases accepted
    exact ⟨rfl, shallow, valid⟩
  · rintro ⟨rfl, shallow, valid⟩
    exact accept_eq_ok shallow valid

/-- A program that is read from an artifact is accepted. -/
theorem accept_of_ofArtifact {document : Json}
    (read : ofArtifact config document = .ok p) :
    accept config p = .ok p := by
  unfold ofArtifact at read
  obtain ⟨q, -, accepted⟩ := bind_eq_ok_iff.mp read
  obtain ⟨rfl, -⟩ := accept_eq_ok_iff.mp accepted
  exact accepted

/-- A program that is read from the text of an artifact is accepted. -/
theorem accept_of_ofBytes {bytes : List UInt8}
    (read : ofBytes config bytes = .ok p) : accept config p = .ok p := by
  unfold ofBytes at read
  split at read
  · cases read
  · split at read
    · exact accept_of_ofArtifact read
    · cases read

/-- Acceptance does not look at literals. -/
theorem accept_canonical (config : EngineConfig) (p : Program) :
    accept config p.canonical = (accept config p).map canonical := by
  have depth : p.canonical.depth = p.depth := depth_mapLiterals _ p
  have validate : p.canonical.validate = p.validate := validate_mapLiterals _ p
  unfold accept
  rw [depth, validate]
  split
  · rfl
  · split
    · cases p.validate <;> rfl
    · rfl

end

/-! ## Artifacts of programs -/

variable {p : Program}

/-- Reading the artifact of a program under a configuration. -/
theorem ofArtifact_eq_accept (config : EngineConfig) (p : Program) :
    ofArtifact config p.toArtifact = (accept config p).map canonical := by
  unfold ofArtifact
  rw [ofArtifactUnchecked_toArtifact, ok_bind, accept_canonical]

/-- The artifact of a program is read as a program that is the same. Under a
configuration it is refused when the program is deeper than its limit, or else
when bindings are checked and have a defect, and is read as a program that is
the same otherwise. -/
theorem ofArtifact_toArtifact (wellFormed : p.WellFormed) (config : EngineConfig) :
    (∃ q, ofArtifactUnchecked p.toArtifact = .ok q ∧ q.same p = true) ∧
      (depthLimit config < p.depth →
        ofArtifact config p.toArtifact =
          .error (.tooDeep p.depth (depthLimit config))) ∧
      (p.depth ≤ depthLimit config → config.validateOnDecode = true →
        ∀ defect, p.validate = .error defect →
        ofArtifact config p.toArtifact = .error (.malformed defect)) ∧
      (p.depth ≤ depthLimit config →
        (config.validateOnDecode = true → p.validate = .ok ()) →
        ∃ q, ofArtifact config p.toArtifact = .ok q ∧ q.same p = true) := by
  have same := canonical_same wellFormed
  rw [ofArtifact_eq_accept]
  refine ⟨⟨_, p.ofArtifactUnchecked_toArtifact, same⟩, ?_, ?_, ?_⟩
  · intro deep
    rw [accept_of_depth_lt deep]
    rfl
  · intro shallow checks defect invalid
    rw [accept_of_defect shallow checks invalid]
    rfl
  · intro shallow valid
    rw [accept_eq_ok shallow valid]
    exact ⟨_, rfl, same⟩

/-- A lookup that no definition encloses, behind a record with a decimal. -/
def strayLookup : Program :=
  .pipe halfLast (.lookup ⟨3⟩)

/-- Every outcome of reading one artifact, as the configuration changes. -/
theorem ofArtifact_strayLookup :
    (∃ q, ofArtifactUnchecked strayLookup.toArtifact = .ok q ∧
      q.same strayLookup = true) ∧
      ofArtifact { maxDepth := 0 } strayLookup.toArtifact = .error (.tooDeep 2 1) ∧
      ofArtifact { maxDepth := 1 } strayLookup.toArtifact =
        .error (.malformed (.unboundLookup ⟨3⟩)) ∧
      ∃ q, ofArtifact { maxDepth := 1, validateOnDecode := false }
        strayLookup.toArtifact = .ok q ∧
        q.same strayLookup = true := by
  have wellFormed : strayLookup.WellFormed := by
    simp [WellFormed, strayLookup, halfLast, literals, Value.WellFormed,
      Value.WellFormedFields]
  have unbound : strayLookup.validate = .error (.unboundLookup ⟨3⟩) := rfl
  obtain ⟨unchecked, deep, -, -⟩ :=
    ofArtifact_toArtifact wellFormed { maxDepth := 0 }
  obtain ⟨-, -, malformed, -⟩ := ofArtifact_toArtifact wellFormed { maxDepth := 1 }
  obtain ⟨-, -, -, accepted⟩ :=
    ofArtifact_toArtifact wellFormed { maxDepth := 1, validateOnDecode := false }
  refine ⟨unchecked, deep (by decide), malformed (by decide) rfl _ unbound,
    accepted (by decide) ?_⟩
  intro checks
  cases checks

end FieldExpr.Program
