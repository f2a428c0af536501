import FieldExpr.Expression.Compile

/-!
# Allocated bindings

Compiling an expression allocates one binding for each of its definitions, and
the program has more nodes than that. A counter that starts low enough therefore
never wraps around.
-/

namespace FieldExpr

mutual

/-- The number of definitions in an expression: one for each application, and
one for each composition. -/
def Expression.definitions : Expression → Nat
  | .identity => 0
  | .var _ => 0
  | .literal _ _ => 0
  | .immediate inner => inner.definitions
  | .defer inner => inner.definitions
  | .apply function argument => argument.definitions + function.definitions
  | .pipe left right => left.definitions + right.definitions
  | .equalTo _ left right => left.definitions + right.definitions
  | .binaryMath _ _ left right => left.definitions + right.definitions
  | .unaryMath _ _ operand => operand.definitions
  | .binaryLogical _ left right => left.definitions + right.definitions
  | .not operand => operand.definitions
  | .diverge condition onTrue onFalse =>
    condition.definitions + onTrue.definitions + onFalse.definitions
  | .tupleGetIndex tuple _ => tuple.definitions

/-- The number of definitions that an application of a function makes, those of
its argument aside. -/
def Function.definitions : Function → Nat
  | .named _ body => body.definitions + 1
  | .andThen first second => first.definitions + second.definitions + 1

end

theorem Function.definitions_pos (f : Function) : 0 < f.definitions := by
  cases f <;> exact Nat.succ_pos _

namespace Compiling

/-- The program of a compilation that starts with this counter. -/
def program (x : Compiling Program) (next : UInt64) : Program :=
  (x.run next).1

/-- The counter after a compilation that starts with this one. -/
def after (x : Compiling Program) (next : UInt64) : UInt64 :=
  (x.run next).2

end Compiling

/-- A compilation that takes `count` bindings, to a program that has more nodes. -/
structure Allocates (count : Nat) (x : Compiling Program) : Prop where
  counter : ∀ next : UInt64, next.toNat + count < UInt64.size →
    (x.after next).toNat = next.toNat + count
  nodes : ∀ next : UInt64, count < (x.program next).nodeCount

namespace Allocates

variable {x y z : Compiling Program} {i j k : Nat}

theorem leaf {p : Program} (nodes : 0 < p.nodeCount) : Allocates 0 (return p) :=
  ⟨fun _ _ => rfl, fun _ => nodes⟩

theorem one {node : Program → Program} (first : Allocates i x)
    (nodes : ∀ p, p.nodeCount ≤ (node p).nodeCount) :
    Allocates i (do return node (← x)) where
  counter := first.counter
  nodes next := Nat.lt_of_lt_of_le (first.nodes next) (nodes _)

theorem two {node : Program → Program → Program} (first : Allocates i x)
    (second : Allocates j y)
    (nodes : ∀ p q, p.nodeCount + q.nodeCount ≤ (node p q).nodeCount) :
    Allocates (i + j) (do let p ← x; let q ← y; return node p q) where
  counter next room := by
    show (y.after (x.after next)).toNat = _
    have after := first.counter next (by omega)
    rw [second.counter _ (by omega), after]
    omega
  nodes next := by
    refine Nat.lt_of_lt_of_le ?_ (nodes (x.program next) (y.program (x.after next)))
    have := first.nodes next
    have := second.nodes (x.after next)
    omega

theorem three {node : Program → Program → Program → Program}
    (first : Allocates i x) (second : Allocates j y) (third : Allocates k z)
    (nodes : ∀ p q r, p.nodeCount + q.nodeCount + r.nodeCount ≤
      (node p q r).nodeCount) :
    Allocates (i + j + k)
      (do let p ← x; let q ← y; let r ← z; return node p q r) where
  counter next room := by
    show (z.after (y.after (x.after next))).toNat = _
    have after := first.counter next (by omega)
    have after' := second.counter (x.after next) (by omega)
    rw [third.counter _ (by omega), after', after]
    omega
  nodes next := by
    refine Nat.lt_of_lt_of_le ?_
      (nodes (x.program next) (y.program (x.after next))
        (z.program (y.after (x.after next))))
    have := first.nodes next
    have := second.nodes (x.after next)
    have := third.nodes (y.after (x.after next))
    omega

theorem toNat_succ {next : UInt64} (room : next.toNat + 1 < UInt64.size) :
    (next + 1).toNat = next.toNat + 1 := by
  rw [UInt64.toNat_add]
  exact Nat.mod_eq_of_lt room

/-- The counter after the input of a definition, which comes after the
definition's own binding. -/
theorem after_succ (input : Allocates i x) {next : UInt64}
    (room : next.toNat + (i + 1) < UInt64.size) :
    (x.after (next + 1)).toNat = next.toNat + 1 + i := by
  have start : (next + 1).toNat = next.toNat + 1 := toNat_succ (by omega)
  rw [input.counter (next + 1) (by omega), start]

/-- A definition: its own binding, and then those of its input and its body. -/
theorem definition {body : Binding → Compiling Program} (input : Allocates i x)
    (bodies : ∀ b, Allocates j (body b)) :
    Allocates (i + (j + 1)) (do
      let b ← Compiling.allocate
      let p ← x
      let q ← body b
      return .functionDef b q p) where
  counter next room := by
    show ((body ⟨next⟩).after (x.after (next + 1))).toNat = _
    have after : (x.after (next + 1)).toNat = next.toNat + 1 + i :=
      input.after_succ (by omega)
    rw [(bodies _).counter _ (by omega), after]
    omega
  nodes next := by
    show _ < 1 + ((x.program (next + 1)).nodeCount +
      ((body ⟨next⟩).program (x.after (next + 1))).nodeCount)
    have := input.nodes (next + 1)
    have := (bodies ⟨next⟩).nodes (x.after (next + 1))
    omega

end Allocates

theorem Program.nodeCount_le_asBranch (p : Program) :
    p.nodeCount ≤ p.asBranch.nodeCount := by
  unfold asBranch
  split
  · exact Nat.le_refl _
  · exact Nat.le_add_left _ _

mutual

/-- Compiling an expression takes one binding for each definition. -/
theorem Expression.allocates (names : NameScope) : (e : Expression) →
    Allocates e.definitions (e.compileIn names)
  | .identity => .leaf (by decide)
  | .var _ => .leaf (by simp [Program.nodeCount])
  | .literal _ _ => .leaf (by simp [Program.nodeCount])
  | .immediate inner => .one (inner.allocates names) fun _ => Nat.le_add_left _ _
  | .defer inner => .one (inner.allocates names) fun _ => Nat.le_add_left _ _
  | .apply function argument => function.allocates names (argument.allocates names)
  | .pipe left right =>
    .two (left.allocates names) (right.allocates names) fun _ _ =>
      Nat.le_add_left _ _
  | .equalTo _ left right =>
    .two (left.allocates names) (right.allocates names) fun _ _ =>
      Nat.le_add_left _ _
  | .binaryMath _ _ left right =>
    .two (left.allocates names) (right.allocates names) fun _ _ =>
      Nat.le_add_left _ _
  | .unaryMath _ _ operand =>
    .one (operand.allocates names) fun _ => Nat.le_add_left _ _
  | .binaryLogical _ left right =>
    .two (left.allocates names) (right.allocates names) fun _ _ =>
      Nat.le_add_left _ _
  | .not operand => .one (operand.allocates names) fun _ => Nat.le_add_left _ _
  | .diverge condition onTrue onFalse =>
    .three (condition.allocates names) (onTrue.allocates names)
        (onFalse.allocates names) fun p q r => by
      -- Branches are deferred where they are not already, which adds nodes and
      -- takes no binding.
      have := q.nodeCount_le_asBranch
      have := r.nodeCount_le_asBranch
      simp only [Program.nodeCount]
      omega
  | .tupleGetIndex tuple _ =>
    .one (tuple.allocates names) fun _ => Nat.le_add_left _ _

/-- Applying a function takes the bindings of the input and one for each
definition of the function. -/
theorem Function.allocates (names : NameScope) :
    (f : Function) → ∀ {x : Compiling Program} {count : Nat},
    Allocates count x → Allocates (count + f.definitions) (f.compileIn names x)
  | .named _ body, _, _, input => .definition input fun _ => body.allocates _
  | .andThen first second, _, _, input => .definition input fun b => by
    have argument : Allocates 0 (return .lookup b) :=
      .leaf (by simp [Program.nodeCount])
    have inner := first.allocates names argument
    rw [Nat.zero_add] at inner
    exact second.allocates names inner

end

end FieldExpr
