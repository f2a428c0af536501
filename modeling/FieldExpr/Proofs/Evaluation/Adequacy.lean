import FieldExpr.Proofs.Evaluation.Promises

/-!
# Evaluation computes meanings

An evaluation that has enough depth ends in the outcome of its program, and one
that has not ends in it too or runs out of depth (`evaluationUnder_eq_outcome`).
What a cell remembers is what demanding it again would give: its outcome was
promised when the cell was made, and an honest machine remembers nothing else.

A program of `n` nodes nests at most `n` deep, however its lets are used, so it
has enough depth with a limit of one less.
-/

namespace FieldExpr

open Run

namespace Promises

variable {settings : Settings} {promises : Promises} {number : Nat}
    {promise : Measured Value}

/-- A machine that remembers a promised result stays honest. -/
theorem remember {m : Machine} (honest : promises.Honest settings True m)
    (found : promises[number]? = some promise) :
    promises.Honest settings True (Run.remember m number promise.result) := by
  refine ⟨by simp [Run.remember, honest.size], ?_⟩
  intro other cell promise' there there'
  simp only [Run.remember, Array.getElem?_modify] at there
  split at there
  · rename_i same
    subst same
    obtain ⟨old, stored, same⟩ := Option.map_eq_some_iff.mp there
    subst same
    have sound := honest.sound stored there'
    rw [found] at there'
    cases there'
    refine ⟨sound.keeps, fun known => ?_⟩
    cases known
    exact ⟨trivial, rfl⟩
  · exact honest.sound there there'

/-- Forcing a cell gives what it promises, be it with less budget than that
needs if the cell remembers. -/
theorem forces_force (settings : Settings) : Forces settings True Run.force := by
  intro budget demand demands promises number promise found m honest
  obtain ⟨cell, there, sound⟩ := honest.cell found
  cases known : cell.outcome with
  | some outcome =>
    rw [on_force_known there known]
    obtain ⟨_, same⟩ := sound.remembers known
    obtain ⟨result, need⟩ := promise
    subst same
    cases result with
    | ok v => exact .ok (.refl promises) honest rfl fun _ => trivial
    | error e => exact .error fun _ => trivial
  | none =>
    rw [on_force_open there known]
    obtain ⟨env, scopes, outcome⟩ := sound.keeps
    -- The closure of the cell may make cells of its own, so the promise is
    -- found again among later ones.
    have ends := demands _ _ env scopes m honest
    rw [outcome] at ends
    generalize (demand cell.closure).on m = ended at ends
    cases ends with
    | ok kept honest same enough =>
      subst same
      exact .ok kept (remember honest (kept _ _ found)) rfl enough
    | error enough => exact .error enough
    | short short => exact .short short

end Promises

/-- An evaluation ends in the outcome of its program, or else its limit is
exceeded, and then the program has more nodes than there are depths. -/
theorem evaluationUnder_eq_outcome (settings : Settings) (p : Program)
    (context : Context) (subject : Value) :
    (p.evaluationUnder settings context subject).result =
      p.outcome settings context.meanings subject ∨
      settings.maxDepth + 1 < p.nodeCount ∧
        (p.evaluationUnder settings context subject).result =
          .error (.depthLimitExceeded settings.maxDepth) := by
  rw [p.evaluationUnder_eq_resultUsing]
  rcases resultUsing_of_forces (Promises.forces_force settings) p context
    subject with ⟨result, _⟩ | ⟨result, short⟩
  · exact .inl (result.trans (p.result_measuredOutcome settings context subject))
  · exact .inr
      ⟨Nat.lt_of_lt_of_le short
        (p.need_measuredOutcome_le settings context subject), result⟩

/-- With a limit that allows for its nodes, a program evaluates to its outcome. -/
theorem evaluate_eq_outcome {p : Program} {config : EngineConfig}
    (deep : p.nodeCount ≤ config.maxDepth.toNat + 1)
    (context : Context) (subject : Value) :
    p.evaluate config context subject =
      p.outcome (.ofConfig config context) context.meanings subject := by
  rcases evaluationUnder_eq_outcome (.ofConfig config context) p context
    subject with result | ⟨short, _⟩
  · exact result
  · exact absurd short (Nat.not_lt.mpr deep)

/-- The value of an evaluation is the outcome of its program. -/
theorem outcome_of_value {settings : Settings} {p : Program} {context : Context}
    {subject v : Value}
    (value : (p.evaluationUnder settings context subject).result = .ok v) :
    p.outcome settings context.meanings subject = .ok v := by
  rcases evaluationUnder_eq_outcome settings p context subject with
    result | ⟨_, exceeded⟩
  · exact result.symm.trans value
  · cases exceeded.symm.trans value

/-- Programs that have one outcome evaluate alike, unless one of the two exceeds
the limit. Neither does if the limit allows for its nodes. -/
theorem evaluate_eq_of_outcome {p q : Program} {config : EngineConfig}
    {context : Context} {subject : Value}
    (same : p.outcome (.ofConfig config context) context.meanings subject =
      q.outcome (.ofConfig config context) context.meanings subject) :
    (p.evaluate config context subject = q.evaluate config context subject ∨
      p.evaluate config context subject =
        .error (.depthLimitExceeded config.maxDepth.toNat) ∨
      q.evaluate config context subject =
        .error (.depthLimitExceeded config.maxDepth.toNat)) ∧
    (p.nodeCount ≤ config.maxDepth.toNat + 1 →
      q.nodeCount ≤ config.maxDepth.toNat + 1 →
      p.evaluate config context subject = q.evaluate config context subject) := by
  rcases evaluationUnder_eq_outcome (.ofConfig config context) p context
      subject with first | ⟨short, exceeded⟩
  · rcases evaluationUnder_eq_outcome (.ofConfig config context) q context
        subject with second | ⟨short, exceeded⟩
    · have alike := first.trans (same.trans second.symm)
      exact ⟨.inl alike, fun _ _ => alike⟩
    · exact ⟨.inr (.inr exceeded), fun _ room => absurd short (Nat.not_lt.mpr room)⟩
  · exact ⟨.inr (.inl exceeded), fun room _ => absurd short (Nat.not_lt.mpr room)⟩

end FieldExpr
