import FieldExpr.Proofs.Evaluation.Adequacy

/-!
# Evaluation is by name, up to its limit

Remembering what a cell came to only ever saves depth. By name a program exceeds
its limit exactly if it needs more (`resultUsing_recompute`); an evaluation that
remembers exceeds it no sooner, and otherwise both end in the same value or the
same error (`evaluationUnder_eq_or_exceeded`).
-/

namespace FieldExpr

open Run

/-- Recomputing a cell gives what it promises, if the budget covers the need. -/
theorem Promises.forces_recompute (settings : Settings) (memoised : Prop) :
    Forces settings memoised Run.recompute := by
  intro budget demand demands promises number promise found m honest
  obtain ⟨cell, there, sound⟩ := honest.cell found
  obtain ⟨env, scopes, outcome⟩ := sound.keeps
  rw [on_recompute there, ← outcome]
  exact demands promises cell.closure env scopes m honest

namespace Program

/-- By name a program comes to its measured result if the limit leaves the depth
that it needs, and to an exceeded limit otherwise. -/
theorem resultUsing_recompute (settings : Settings) (p : Program)
    (context : Context) (subject : Value) :
    p.resultUsing Run.recompute settings context subject =
      if settings.maxDepth + 1 <
        (p.measuredOutcome settings context.prospects subject).need then
        .error (.depthLimitExceeded settings.maxDepth)
      else (p.measuredOutcome settings context.prospects subject).result := by
  rcases resultUsing_of_forces (Promises.forces_recompute settings False) p
      context subject with
    ⟨result, enough⟩ | ⟨result, short⟩
  · rw [if_neg enough]
    exact result
  · rw [if_pos short]
    exact result

/-- An evaluation that remembers has enough depth wherever evaluation by name
has. -/
theorem evaluationUnder_eq_or_exceeded (settings : Settings) (p : Program)
    (context : Context) (subject : Value) :
    (p.evaluationUnder settings context subject).result =
      p.resultUsing Run.recompute settings context subject ∨
      p.resultUsing Run.recompute settings context subject =
        .error (.depthLimitExceeded settings.maxDepth) := by
  rw [p.evaluationUnder_eq_resultUsing, resultUsing_recompute]
  split
  · exact .inr rfl
  · rename_i enough
    rcases resultUsing_of_forces (Promises.forces_force settings) p context
      subject with ⟨result, _⟩ | ⟨_, short⟩
    · exact .inl result
    · exact absurd short enough

/-- Where evaluation by name does not exceed its limit, evaluation comes to the
same value or error; and where they differ, it is evaluation by name that
exceeds its limit. -/
theorem evaluate_agrees_with_evaluateByName (config : EngineConfig)
    (p : Program) (context : Context) (subject : Value) :
    ((∀ limit, p.evaluateByName config context subject ≠
        .error (.depthLimitExceeded limit)) →
        p.evaluate config context subject =
          p.evaluateByName config context subject) ∧
      (p.evaluate config context subject ≠ p.evaluateByName config context subject →
        p.evaluateByName config context subject =
          .error (.depthLimitExceeded config.maxDepth.toNat)) := by
  have agrees :=
    p.evaluationUnder_eq_or_exceeded (Settings.ofConfig config context)
      context subject
  constructor
  · intro finished
    exact agrees.resolve_right (finished _)
  · intro differ
    exact agrees.resolve_left differ

/-- A deferred truth value that is read twice, the second time two levels deeper. -/
def readAgainDeeper : Program :=
  .functionDef ⟨0⟩ (.binaryLogical .and (.lookup ⟨0⟩) (.not (.not (.lookup ⟨0⟩))))
    (.defer (.literal (.boolean true) .boolean))

/-- With a limit of five both evaluations finish. With one of four only the one
that remembers does: the second reading costs it nothing. -/
theorem evaluate_readAgainDeeper :
    readAgainDeeper.evaluate { maxDepth := 5 } {} .unit = .ok (.boolean true) ∧
      readAgainDeeper.evaluate { maxDepth := 4 } {} .unit = .ok (.boolean true) ∧
      readAgainDeeper.evaluateByName { maxDepth := 4 } {} .unit =
        .error (.depthLimitExceeded 4) := by
  have roomy : readAgainDeeper.evaluateByName { maxDepth := 5 } {} .unit =
    .ok (.boolean true) := rfl
  have tight : readAgainDeeper.evaluate { maxDepth := 4 } {} .unit =
    .ok (.boolean true) := rfl
  refine ⟨?_, tight, ?_⟩
  · rw [(readAgainDeeper.evaluate_agrees_with_evaluateByName { maxDepth := 5 }
      {} .unit).1, roomy]
    intro limit exceeded
    rw [roomy] at exceeded
    cases exceeded
  · refine (readAgainDeeper.evaluate_agrees_with_evaluateByName
      { maxDepth := 4 } {} .unit).2 ?_
    intro same
    have differ : readAgainDeeper.evaluateByName { maxDepth := 4 } {} .unit =
      .error (.depthLimitExceeded 4) := rfl
    rw [tight, differ] at same
    cases same

end Program

end FieldExpr
