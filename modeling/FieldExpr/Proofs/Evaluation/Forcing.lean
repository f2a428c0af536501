import FieldExpr.Proofs.Evaluation.Rule

/-!
# Evaluation by a way of forcing

The evaluator with the way in which it gets the value of a cell as a parameter:
the rules of the nodes, the depth at which a cell is forced and the limit are
the same. `Run.force` makes the evaluator itself, which remembers
(`demand_eq_demandUsing`). `Run.recompute` makes call by name: a cell is only
what was deferred, with the scope and the subject that it was deferred in, and
demanding it starts that program again.
-/

namespace FieldExpr

namespace Run

/-- A way to get the value of a cell, given how its closure is demanded. -/
abbrev Forcing := (Closure → Run Value) → Nat → Run Value

mutual

/-- The slot of a closure that is entered at a depth, where cells are forced
in a given way. -/
def evalUsing (forcing : Forcing) (settings : Settings) :
    (budget depth : Nat) → Closure → Run Slot
  | 0, _, _ => throw (.depthLimitExceeded settings.maxDepth)
  | budget + 1, depth, c => do
    enter c depth
    node settings (evalUsing forcing settings budget (depth + 1))
      (demandUsing forcing settings budget (depth + 1)) c

/-- The value of a closure that is entered at a depth. A cell that it yields is
forced one level deeper. -/
def demandUsing (forcing : Forcing) (settings : Settings) :
    (budget depth : Nat) → Closure → Run Value
  | 0, _, _ => throw (.depthLimitExceeded settings.maxDepth)
  | budget + 1, depth, c => do
    enter c depth
    let slot ←
      node settings (evalUsing forcing settings budget (depth + 1))
        (demandUsing forcing settings budget (depth + 1)) c
    match slot with
    | .ready value => return value
    | .deferred number =>
      forcing (demandUsing forcing settings budget (depth + 1)) number

end

/-- The outcome of demanding the closure of a cell, whatever the cell remembers,
and without telling it. -/
def recompute : Forcing := fun demand number => do
  match (← get).cells[number]? with
  | none => return .unit
  | some cell => demand cell.closure

/-- The evaluator forces cells with `force`. -/
theorem eval_eq_evalUsing (settings : Settings) (budget : Nat) : ∀ depth,
    eval settings budget depth = evalUsing force settings budget depth ∧
      demand settings budget depth = demandUsing force settings budget depth := by
  induction budget with
  | zero => intro depth; exact ⟨rfl, rfl⟩
  | succ budget ih =>
    intro depth
    obtain ⟨evals, demands⟩ := ih (depth + 1)
    constructor
    · funext c
      unfold eval evalUsing
      exact evals ▸ demands ▸ rfl
    · funext c
      unfold demand demandUsing
      exact evals ▸ demands ▸ rfl

theorem on_recompute {demand : Closure → Run Value} {m : Machine} {number : Nat}
    {cell : Cell} (found : m.cells[number]? = some cell) :
    (recompute demand number).on m = (demand cell.closure).on m := by
  unfold recompute
  rw [on_bind, on_get]
  dsimp only
  rw [found]

end Run

namespace Program

/-- The value of a program against a subject in a context, where cells are
forced in a given way. -/
def resultUsing (forcing : Run.Forcing) (settings : Settings) (p : Program)
    (context : Context) (subject : Value) : Except EvaluationError Value :=
  ((Run.demandUsing forcing settings (settings.maxDepth + 1) 0
    (p.closure context subject)).on {}).1

theorem evaluationUnder_eq_resultUsing (settings : Settings) (p : Program)
    (context : Context) (subject : Value) :
    (p.evaluationUnder settings context subject).result =
      p.resultUsing Run.force settings context subject := by
  rw [evaluationUnder_eq,
    (Run.eval_eq_evalUsing settings (settings.maxDepth + 1) 0).2]
  rfl

/-- The value of a program by name: what was deferred is evaluated afresh
wherever it is demanded. -/
def evaluateByName (config : EngineConfig) (p : Program) (context : Context)
    (subject : Value) : Except EvaluationError Value :=
  p.resultUsing Run.recompute (Settings.ofConfig config context) context subject

end Program

end FieldExpr
