import FieldExpr.Proofs.Artifact.Canonical
import FieldExpr.Proofs.Cache
import FieldExpr.Proofs.Evaluation.Interchange

/-!
# Evaluation of stand-ins

A program that went through its artifact or a cache comes back as one that is
the same, though not always the one it was. It evaluates to the same values and
errors in every context, unless its evaluation depends on the order of fields:
it uses an element, selected by position from a record, that the other program
has elsewhere in its order.
-/

namespace FieldExpr

namespace Program

/-- The ways in which a program gets to be evaluated in place of another. A cache
knows programs by their digests only, so it takes that the two do not collide. -/
inductive StandIn (p : Program) : Program → Prop
  | same {q} : q.WellFormed → p.same q = true → StandIn p q
  | bytes {q} : q.WellFormed → p.canonicalBytes = q.canonicalBytes → StandIn p q
  | decoded {q} : ofArtifactUnchecked p.toArtifact = .ok q → StandIn p q
  | inserted {cache : Cache} : cache.Reached →
    (p.digest = (cache.insert p).2.1.digest →
      p.canonicalBytes = (cache.insert p).2.1.canonicalBytes) →
    StandIn p (cache.insert p).2.1
  | compiled {cache : Cache} {e : Expression} : cache.Reached → p = e.compile →
    (p.digest = (cache.getOrCompile e).2.1.digest →
      p.canonicalBytes = (cache.getOrCompile e).2.1.canonicalBytes) →
    StandIn p (cache.getOrCompile e).2.1

variable {p q : Program}

/-- Programs that are the same evaluate to the same value or error, unless the
evaluation of the one depends on the order of fields in the other. -/
theorem sameResult_of_same (first : p.WellFormed) (second : q.WellFormed)
    (same : p.same q = true) (config : EngineConfig) {context : Context}
    {subject : Value} (bindings : context.WellFormed) (input : subject.WellFormed)
    (independent : ¬ p.DependsOnOrder q config context subject) :
    SameResult (p.evaluate config context subject)
      (q.evaluate config context subject) := by
  rcases abreast_cases first second same config bindings input with
    ⟨v, v', _, values, left, right⟩ | ⟨e, _, left, right⟩ | ⟨depends, _⟩
  · rw [left, right]
    exact .ok values
  · rw [left, right]
    exact .error e
  · exact absurd depends independent

/-- Both orders of the fields have the same one in the middle. -/
example :
    let p := tupleGetIndex (.literal (.record
      [("c", .integer 3), ("b", .integer 2), ("a", .integer 1)]) .record) 1
    p.abreast p.canonical {} {} .unit = .ok (.integer 2, .integer 2) := rfl

/-- The orders start with different fields, but these have equal values. -/
example :
    let p := tupleGetIndex (.literal (.record
      [("b", .integer 1), ("a", .integer 1)]) .record) 0
    p.abreast p.canonical {} {} .unit = .ok (.integer 1, .integer 1) := rfl

/-- Programs that are the same, and list the fields of their records in one
order, are interchangeable without exception. -/
theorem sameResult_of_inOrder (first : p.WellFormed) (second : q.WellFormed)
    (same : p.same q = true) (order : p.InOrder q) (config : EngineConfig)
    {context : Context} {subject : Value} (bindings : context.WellFormed)
    (input : subject.WellFormed) :
    SameResult (p.evaluate config context subject)
      (q.evaluate config context subject) := by
  refine sameResult_of_same first second same config bindings input
    fun depends => ?_
  rcases abreast_cases first second same config bindings input with
    ⟨_, _, abreast, _⟩ | ⟨_, abreast, _⟩ | ⟨_, unordered⟩
  · cases abreast.symm.trans depends
  · cases abreast.symm.trans depends
  · exact unordered order

theorem StandIn.same_of_wellFormed (standIn : StandIn p q)
    (wellFormed : p.WellFormed) :
    q.WellFormed ∧ p.same q = true := by
  have of_bytes : ∀ {r : Program}, r.WellFormed →
      p.canonicalBytes = r.canonicalBytes → p.same r = true :=
    fun second bytes => (toArtifact_eq_iff wellFormed second).mp
      ((canonicalBytes_eq_iff _ _).mp bytes)
  cases standIn with
  | same second same => exact ⟨second, same⟩
  | bytes second bytes => exact ⟨second, of_bytes second bytes⟩
  | decoded decoded =>
    rw [ofArtifactUnchecked_toArtifact] at decoded
    cases decoded
    have document : p.toArtifact = p.canonical.toArtifact := by
      unfold toArtifact
      rw [toDocument_canonical]
    exact ⟨wellFormed.canonical,
      (toArtifact_eq_iff wellFormed wellFormed.canonical).mp document⟩
  | inserted reached separate =>
    obtain ⟨⟨digest, second⟩, _⟩ := reached.keyed.insert wellFormed
    exact ⟨second, of_bytes second (separate digest.symm)⟩
  | compiled reached equal separate =>
    subst equal
    obtain ⟨⟨digest, second⟩, _⟩ := reached.keyed.getOrCompile wellFormed
    exact ⟨second, of_bytes second (separate digest.symm)⟩

/-- A program and one that stands in for it evaluate to the same value or error,
in every context and for every subject, unless the evaluation depends on the
order in which the stand-in lists the fields of records. -/
theorem sameResult_of_standIn (wellFormed : p.WellFormed) (standIn : StandIn p q)
    (config : EngineConfig) {context : Context} {subject : Value}
    (bindings : context.WellFormed) (input : subject.WellFormed)
    (independent : ¬ p.DependsOnOrder q config context subject) :
    SameResult (p.evaluate config context subject)
      (q.evaluate config context subject) := by
  obtain ⟨second, same⟩ := standIn.same_of_wellFormed wellFormed
  exact sameResult_of_same wellFormed second same config bindings input independent

/-- A record with its fields out of order. -/
def unsorted : Value :=
  .record [("b", .integer 1), ("a", .integer 2)]

/-- The first field of the subject. Before it the first field of a record is
bound, which is not read. -/
def firstOfSubject : Program :=
  .functionDef ⟨0⟩ (.tupleGetIndex .identity 0)
    (.tupleGetIndex (.literal unsorted .record) 0)

/-- The subject may be the very record that the stand-in lists in another order. -/
theorem sameResult_firstOfSubject :
    SameResult (firstOfSubject.evaluate {} {} unsorted)
      (firstOfSubject.canonical.evaluate {} {} unsorted) := by
  have input : unsorted.WellFormed := by
    simp [unsorted, Value.WellFormed, Value.WellFormedFields]
  have wellFormed : firstOfSubject.WellFormed := by
    intro v mem
    cases List.mem_singleton.mp mem
    exact input
  have standIn : StandIn firstOfSubject firstOfSubject.canonical :=
    .decoded firstOfSubject.ofArtifactUnchecked_toArtifact
  have bindings : Context.WellFormed {} := by
    intro entry mem
    cases mem
  refine sameResult_of_standIn wellFormed standIn
    {} bindings input fun depends => ?_
  have abreast : firstOfSubject.abreast firstOfSubject.canonical {} {} unsorted =
      .ok (.integer 1, .integer 1) := rfl
  rw [DependsOnOrder, abreast] at depends
  cases depends

/-! ## Selection by position -/

/-- The first field of a record with its fields out of order. -/
def firstOfRecord : Program :=
  .tupleGetIndex (.literal unsorted .record) 0

/-- The artifact of a program that selects from a record by position is read as
a program that is the same, and selects another field. -/
theorem not_sameResult_firstOfRecord :
    firstOfRecord.same firstOfRecord.canonical = true ∧
      ofArtifactUnchecked firstOfRecord.toArtifact = .ok firstOfRecord.canonical ∧
      firstOfRecord.evaluate {} {} .unit = .ok (.integer 1) ∧
      firstOfRecord.canonical.evaluate {} {} .unit = .ok (.integer 2) ∧
      ¬ SameResult (firstOfRecord.evaluate {} {} .unit)
        (firstOfRecord.canonical.evaluate {} {} .unit) := by
  have left : firstOfRecord.evaluate {} {} .unit = .ok (.integer 1) := rfl
  have right : firstOfRecord.canonical.evaluate {} {} .unit =
    .ok (.integer 2) := by rfl
  refine ⟨by decide, ofArtifactUnchecked_toArtifact _, left, right, ?_⟩
  rw [left, right]
  rintro (same | _)
  exact absurd same (by decide)

end Program

end FieldExpr
