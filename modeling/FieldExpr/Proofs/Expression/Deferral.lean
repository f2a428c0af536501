import FieldExpr.Proofs.Expression.Allocation
import FieldExpr.Proofs.Program.Deferring

/-!
# Expressions that defer nothing

Compilation defers branches and nothing else of its own accord. A choice between
branches demands the one it takes, so the program of an expression that defers
nothing is settled, whatever it applies.
-/

namespace FieldExpr

mutual

/-- Nothing in the expression is deferred by its author. -/
def Expression.DeferFree : Expression → Prop
  | .identity => True
  | .var _ => True
  | .literal _ _ => True
  | .immediate inner => inner.DeferFree
  | .defer _ => False
  | .apply function argument => argument.DeferFree ∧ function.DeferFree
  | .pipe left right => left.DeferFree ∧ right.DeferFree
  | .equalTo _ left right => left.DeferFree ∧ right.DeferFree
  | .binaryMath _ _ left right => left.DeferFree ∧ right.DeferFree
  | .unaryMath _ _ operand => operand.DeferFree
  | .binaryLogical _ left right => left.DeferFree ∧ right.DeferFree
  | .not operand => operand.DeferFree
  | .diverge condition onTrue onFalse =>
    condition.DeferFree ∧ onTrue.DeferFree ∧ onFalse.DeferFree
  | .tupleGetIndex tuple _ => tuple.DeferFree

/-- Nothing in the bodies of the function is deferred by its author. -/
def Function.DeferFree : Function → Prop
  | .named _ body => body.DeferFree
  | .andThen first second => first.DeferFree ∧ second.DeferFree

end

/-- A branch has the definitions of the program that it defers. -/
theorem Program.StrictLets.asBranch {p : Program} (strict : p.StrictLets) :
    p.asBranch.StrictLets := by
  unfold Program.asBranch
  split
  · exact strict
  · exact .of_children (by simpa [children] using strict) nofun

/-- A compilation to a settled program, wherever its counter starts. -/
def Settles (x : Compiling Program) : Prop :=
  ∀ next, (x.program next).Settled

namespace Settles

variable {x y : Compiling Program}

theorem leaf {p : Program} (children : p.children = [])
    (own : ∀ inner, p ≠ .defer inner) : Settles (return p) :=
  fun _ => .of_children (fun _ mem => absurd (children ▸ mem) List.not_mem_nil) own

theorem one {node : Program → Program} (first : Settles x)
    (children : ∀ p, (node p).children = [p])
    (own : ∀ p inner, node p ≠ .defer inner) : Settles (do return node (← x)) := by
  intro next
  show (node (x.program next)).Settled
  refine .of_children ?_ (own _)
  rw [children]
  simpa using first next

theorem two {node : Program → Program → Program} (first : Settles x)
    (second : Settles y) (children : ∀ p q, (node p q).children = [p, q])
    (own : ∀ p q inner, node p q ≠ .defer inner) :
    Settles (do let p ← x; let q ← y; return node p q) := by
  intro next
  show (node (x.program next) (y.program (x.after next))).Settled
  refine .of_children ?_ (own _ _)
  rw [children]
  simpa using ⟨first next, second (x.after next)⟩

/-- Branches are deferred, but the choice between them demands the one it takes
and ends in a value. -/
theorem choice {z : Compiling Program} (condition : Settles x)
    (onTrue : Settles y) (onFalse : Settles z) :
    Settles do
      let c ← x
      let t ← y
      let f ← z
      return .diverge c t.asBranch f.asBranch := by
  intro next
  refine ⟨.of_children ?_ nofun, rfl⟩
  show ∀ c ∈ [x.program next, (y.program (x.after next)).asBranch,
    (z.program (y.after (x.after next))).asBranch], c.StrictLets
  simpa using ⟨(condition next).strictLets, (onTrue _).strictLets.asBranch,
    (onFalse _).strictLets.asBranch⟩

theorem definition {body : Binding → Compiling Program} (input : Settles x)
    (bodies : ∀ b, Settles (body b)) :
    Settles (do
      let b ← Compiling.allocate
      let p ← x
      let q ← body b
      return .functionDef b q p) := by
  intro next
  show (Program.functionDef ⟨next⟩ ((body ⟨next⟩).program (x.after (next + 1)))
    (x.program (next + 1))).Settled
  refine .of_children ?_ nofun
  simpa [Program.children] using ⟨input (next + 1), bodies ⟨next⟩ _⟩

end Settles

mutual

/-- Compiling an expression that defers nothing gives a settled program. -/
theorem Expression.settles :
    (e : Expression) → ∀ {names : NameScope}, e.DeferFree → Settles
    (e.compileIn names)
  | .identity, _, _ => .leaf rfl nofun
  | .var _, _, _ => .leaf rfl nofun
  | .literal _ _, _, _ => .leaf rfl nofun
  | .immediate inner, _, free => .one (inner.settles free) (fun _ => rfl) nofun
  | .apply function argument, _, free =>
    function.settles free.2 (argument.settles free.1)
  | .pipe left right, _, free =>
    .two (left.settles free.1) (right.settles free.2) (fun _ _ => rfl) nofun
  | .equalTo _ left right, _, free =>
    .two (left.settles free.1) (right.settles free.2) (fun _ _ => rfl) nofun
  | .binaryMath _ _ left right, _, free =>
    .two (left.settles free.1) (right.settles free.2) (fun _ _ => rfl) nofun
  | .unaryMath _ _ operand, _, free =>
    .one (operand.settles free) (fun _ => rfl) nofun
  | .binaryLogical _ left right, _, free =>
    .two (left.settles free.1) (right.settles free.2) (fun _ _ => rfl) nofun
  | .not operand, _, free => .one (operand.settles free) (fun _ => rfl) nofun
  | .diverge condition onTrue onFalse, _, free =>
    .choice (condition.settles free.1) (onTrue.settles free.2.1)
      (onFalse.settles free.2.2)
  | .tupleGetIndex tuple _, _, free =>
    .one (tuple.settles free) (fun _ => rfl) nofun

/-- A function that defers nothing, applied to an input that is settled,
compiles to a settled program. -/
theorem Function.settles :
    (f : Function) → ∀ {names : NameScope} {x : Compiling Program},
      f.DeferFree → Settles x →
    Settles (f.compileIn names x)
  | .named _ body, _, _, free, input => .definition input fun _ => body.settles free
  | .andThen first second, _, _, free, input => .definition input fun b => by
    have read : Settles (return .lookup b) := .leaf rfl nofun
    exact second.settles free.2 (first.settles free.1 read)

end

end FieldExpr
