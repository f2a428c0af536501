import FieldExpr.Proofs.Evaluation.Lockstep
import Mathlib.Logic.Function.Basic

/-!
# Bindings are only names

Renaming the bindings of a program and of its context changes nothing but the
binding that an error names, as long as no two bindings become one. A renamed
evaluation runs in lockstep with the original: each of its scopes, those kept in
cells included, is the original's with its bindings renamed, and so every lookup
finds the same slot.
-/

namespace FieldExpr

open Likeness

/-! ## Renaming -/

/-- The program with its bindings renamed, where they are defined and where they
are looked up. -/
def Program.rename (f : Binding → Binding) : Program → Program
  | .identity => .identity
  | .lookup b => .lookup (f b)
  | .immediate inner => .immediate (inner.rename f)
  | .defer inner => .defer (inner.rename f)
  | .functionDef b body input => .functionDef (f b) (body.rename f) (input.rename f)
  | .literal v shape => .literal v shape
  | .pipe left right => .pipe (left.rename f) (right.rename f)
  | .equalTo tag left right => .equalTo tag (left.rename f) (right.rename f)
  | .binaryMath op tag left right =>
    .binaryMath op tag (left.rename f) (right.rename f)
  | .unaryMath op tag operand => .unaryMath op tag (operand.rename f)
  | .binaryLogical op left right =>
    .binaryLogical op (left.rename f) (right.rename f)
  | .not operand => .not (operand.rename f)
  | .diverge condition onTrue onFalse =>
    .diverge (condition.rename f) (onTrue.rename f) (onFalse.rename f)
  | .tupleGetIndex tuple index => .tupleGetIndex (tuple.rename f) index

/-- The error with the binding renamed that it names. -/
def EvaluationError.rename (f : Binding → Binding) :
    EvaluationError → EvaluationError
  | .unboundBinding b => .unboundBinding (f b)
  | error => error

section

variable {α : Type}

/-- Entries with their bindings renamed. -/
def renameEntries (f : Binding → Binding) (entries : List (Binding × α)) :
    List (Binding × α) :=
  entries.map fun entry => (f entry.1, entry.2)

/-- A renamed binding finds what it found before. -/
theorem lookup_renameEntries {f : Binding → Binding}
    (injective : Function.Injective f) (entries : List (Binding × α))
    (b : Binding) : (renameEntries f entries).lookup (f b) = entries.lookup b := by
  induction entries with
  | nil => rfl
  | cons entry rest ih =>
    show List.lookup (f b) ((f entry.1, entry.2) :: renameEntries f rest) =
      List.lookup b (entry :: rest)
    rw [List.lookup_cons, List.lookup_cons, ih]
    by_cases same : b = entry.1
    · rw [beq_iff_eq.mpr same, beq_iff_eq.mpr (congrArg f same)]
    · have other : f b ≠ f entry.1 := fun equal => same (injective equal)
      rw [beq_eq_false_iff_ne.mpr same, beq_eq_false_iff_ne.mpr other]

end

/-- The context with its bindings renamed. -/
def Context.rename (f : Binding → Binding) (context : Context) : Context :=
  { context with bindings := renameEntries f context.bindings }

/-- The closure with its bindings renamed. -/
def Closure.rename (f : Binding → Binding) (c : Closure) : Closure :=
  { c with program := c.program.rename f, scope := renameEntries f c.scope }

theorem Program.closure_rename (f : Binding → Binding) (p : Program)
    (context : Context) (subject : Value) :
    (p.rename f).closure (context.rename f) subject =
      (p.closure context subject).rename f := by
  simp [closure, Context.rename, Closure.rename, renameEntries]

/-- What strict nodes fail over names no binding. -/
theorem Rule.OperandError.rename_eq {e : EvaluationError}
    (operand : OperandError e) (f : Binding → Binding) :
    e.rename f = e := by
  cases operand <;> rfl

/-! ## Renamed evaluations -/

/-- An evaluation and the one with its bindings renamed. -/
def renamingLikeness (f : Binding → Binding) : Likeness where
  error e e' := e' = e.rename f
  excused _ := False
  closure c c' := c' = c.rename f

section

variable {f : Binding → Binding}

theorem nodes_rename (injective : Function.Injective f) (settings : Settings)
    (c : Closure) :
    (renamingLikeness f).Nodes settings c (c.rename f) := by
  obtain ⟨program, position, scope, subject⟩ := c
  cases program with
  | identity => exact .identity
  | lookup b =>
    refine .lookup ?_
    rw [lookup_renameEntries injective]
    cases scope.lookup b with
    | some slot => exact .ok slot
    | none => exact .error rfl
  | literal v shape => exact .literal
  | immediate inner => exact .immediate rfl
  | defer inner => exact .defer rfl
  | functionDef b body input => exact .functionDef rfl fun slot => rfl
  | pipe left right => exact .pipe rfl fun v => rfl
  | equalTo tag left right => exact .equalTo rfl rfl
  | binaryMath op tag left right => exact .binaryMath rfl rfl
  | unaryMath op tag operand => exact .unaryMath rfl
  | binaryLogical op left right => exact .binaryLogical rfl rfl
  | not operand => exact .not rfl
  | diverge condition onTrue onFalse => exact .diverge rfl rfl rfl
  | tupleGetIndex tuple index => exact .tupleGetIndex rfl

theorem lawful_renamingLikeness (injective : Function.Injective f)
    (settings : Settings) :
    (renamingLikeness f).Lawful settings settings := by
  refine ⟨fun e operand => (operand.rename_eq f).symm, rfl, ?_, Nat.le_refl _,
    .inr ⟨rfl, rfl⟩⟩
  rintro c _ rfl
  exact nodes_rename injective settings c

/-- A renamed evaluation enters the same nodes and comes to the same value, or
to the same error with its binding renamed. -/
theorem evaluationUnder_rename (injective : Function.Injective f)
    (settings : Settings) (p : Program) (context : Context) (subject : Value) :
    ((p.rename f).evaluationUnder settings (context.rename f) subject).result =
        (p.evaluationUnder settings context subject).result.mapError
          (EvaluationError.rename f) ∧
      ((p.rename f).evaluationUnder settings (context.rename f)
        subject).machine.visits =
        (p.evaluationUnder settings context subject).machine.visits := by
  have evaluations :=
    (lawful_renamingLikeness injective settings).evaluationUnder
      (p.closure_rename f context subject)
  cases evaluations with
  | excused _ excuse => exact excuse.elim
  | alike outcomes visits =>
    refine ⟨?_, visits.symm⟩
    generalize (p.evaluationUnder settings context subject).result = result
      at outcomes ⊢
    generalize ((p.rename f).evaluationUnder settings (context.rename f)
      subject).result = result' at outcomes ⊢
    cases outcomes with
    | ok v => rfl
    | error same => exact congrArg Except.error same
    | excused excuse => exact excuse.elim

end

end FieldExpr
