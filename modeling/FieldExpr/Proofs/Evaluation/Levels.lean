import FieldExpr.Proofs.Artifact.Acceptance
import FieldExpr.Proofs.Evaluation.Adequacy
import FieldExpr.Proofs.Evaluation.Limit
import FieldExpr.Proofs.Expression.Deferral

/-!
# Programs without lazy lets nest no deeper than their trees

A cell is forced one level below the demand that finds it, which may be far from
the place where it was made. As long as no binding holds a cell, though, a cell
is only found by a demand above that place, and forcing it then takes no more
levels than going down to it would. So the bound on the depth of a program that
is read bounds its evaluation too.
-/

namespace FieldExpr

namespace Program

/-! ## Outcomes know no limit -/

/-- No rule asks for the limit. -/
theorem meaning_limitedTo (settings : Settings) (limit : Nat) (p : Program) :
    ∀ env subject, p.meaning (settings.limitedTo limit) env subject =
      p.meaning settings env subject := by
  induction p with
  | _ =>
    intro env subject
    simp only [meaning, *] <;> rfl

/-- An outcome is no exceeded limit: it would have to be the limit of every
evaluation that has enough depth. -/
theorem outcome_ne_depthLimitExceeded (settings : Settings) (p : Program)
    (context : Context) (subject : Value) (limit : Nat) :
    p.outcome settings context.meanings subject ≠
      .error (.depthLimitExceeded limit) := by
  intro exceeded
  rcases evaluationUnder_eq_outcome
      (settings.limitedTo (p.nodeCount + limit + 1)) p context subject with
    result | ⟨short, _⟩
  · unfold outcome at result exceeded
    rw [p.meaning_limitedTo, exceeded] at result
    have blamed : limit = p.nodeCount + limit + 1 := eq_maxDepth_of_exceeded result
    omega
  · change p.nodeCount + limit + 1 + 1 < p.nodeCount at short
    omega

/-! ## Evaluations -/

/-- An evaluation that is allowed as many levels as the program has ends
in its outcome. -/
theorem evaluationUnder_of_strictLets {settings : Settings} {p : Program}
    (strict : p.StrictLets) (shallow : p.depth ≤ settings.maxDepth + 1)
    (context : Context) (subject : Value) :
    (p.evaluationUnder settings context subject).result =
      p.outcome settings context.meanings subject := by
  rw [p.evaluationUnder_eq_resultUsing]
  rcases resultUsing_of_forces (Promises.forces_force settings) p context
    subject with ⟨result, _⟩ | ⟨_, short⟩
  · exact result.trans (p.result_measuredOutcome settings context subject)
  · have need :=
      need_measuredOutcome_le_size settings strict.roomy_depth context subject
    omega

theorem evaluate_ne_depthLimitExceeded {p : Program} (strict : p.StrictLets)
    {config : EngineConfig} (shallow : p.depth ≤ config.maxDepth.toNat + 1)
    (context : Context) (subject : Value) (limit : Nat) :
    p.evaluate config context subject ≠ .error (.depthLimitExceeded limit) := by
  have result : p.evaluate config context subject =
      p.outcome (Settings.ofConfig config context) context.meanings
      subject := evaluationUnder_of_strictLets strict shallow context subject
  intro exceeded
  exact p.outcome_ne_depthLimitExceeded _ context subject limit
    (result.symm.trans exceeded)

/-- A program in which no definition has a deferring input never exceeds a limit
that its tree keeps to. This holds of what is read under the same configuration,
and of the program of every expression that defers nothing itself, although its
branches are deferred. -/
theorem strictLets_never_exceed :
    (∀ p : Program, p.StrictLets → ∀ config : EngineConfig,
      p.depth ≤ config.maxDepth.toNat + 1 →
      ∀ (context : Context) (subject : Value) (limit : Nat),
        p.evaluate config context subject ≠ .error (.depthLimitExceeded limit)) ∧
    (∀ p : Program, p.StrictLets → ∀ config : EngineConfig,
      ((∃ document, ofArtifact config document = .ok p) ∨
        ∃ bytes, ofBytes config bytes = .ok p) →
      ∀ (context : Context) (subject : Value) (limit : Nat),
        p.evaluate config context subject ≠ .error (.depthLimitExceeded limit)) ∧
    (∀ e : Expression, e.DeferFree → ∀ (allocated : UInt64) (config : EngineConfig),
      (e.compileWith allocated).1.depth ≤ config.maxDepth.toNat + 1 →
      ∀ (context : Context) (subject : Value) (limit : Nat),
        (e.compileWith allocated).1.evaluate config context subject ≠
          .error (.depthLimitExceeded limit)) := by
  refine ⟨?_, ?_, ?_⟩
  · intro p strict config shallow
    exact evaluate_ne_depthLimitExceeded strict shallow
  · intro p strict config read
    have accepted : accept config p = .ok p := by
      rcases read with ⟨document, read⟩ | ⟨bytes, read⟩
      · exact accept_of_ofArtifact read
      · exact accept_of_ofBytes read
    obtain ⟨_, shallow, _⟩ := accept_eq_ok_iff.mp accepted
    exact evaluate_ne_depthLimitExceeded strict
      (Nat.le_trans shallow (Nat.min_le_left _ _))
  · intro e free allocated config shallow
    exact evaluate_ne_depthLimitExceeded (e.settles free allocated).strictLets
      shallow

end Program

/-- The absolute value of the subject. -/
def Expression.absolute : Expression :=
  .letIn "n" .identity
    (.diverge (.binaryMath .greaterThan .integer (.var "n") (.integer 0)) (.var "n")
    (.unaryMath .negate .integer (.var "n")))

/-- Its program is five levels deep, and four is the least limit that it
never exceeds. -/
theorem Program.strictLets_absolute :
    Expression.absolute.DeferFree ∧
      Expression.absolute.compile.StrictLets ∧
      Program.ofArtifact
        { maxDepth := 4 } Expression.absolute.compile.toArtifact =
        .ok Expression.absolute.compile ∧
      Expression.absolute.compile.depth = 5 ∧
      (∀ (context : Context) (subject : Value) (limit : Nat),
        Expression.absolute.compile.evaluate { maxDepth := 4 } context subject ≠
          .error (.depthLimitExceeded limit)) ∧
      Expression.absolute.compile.evaluate { maxDepth := 3 } {} (.integer (-7)) =
        .error (.depthLimitExceeded 3) := by
  have free : Expression.absolute.DeferFree := by
    simp [Expression.absolute, Expression.letIn, Expression.integer,
      Expression.DeferFree, Function.DeferFree]
  have strict : Expression.absolute.compile.StrictLets :=
    (Expression.absolute.settles free 0).strictLets
  have read : Program.ofArtifact
      { maxDepth := 4 } Expression.absolute.compile.toArtifact =
      .ok Expression.absolute.compile := rfl
  obtain ⟨_, accepted, _⟩ := Program.strictLets_never_exceed
  exact ⟨free, strict, read, rfl,
    accepted _ strict { maxDepth := 4 } (.inl ⟨_, read⟩), rfl⟩

end FieldExpr
