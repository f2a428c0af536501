import FieldExpr.Proofs.Program.Nodes

/-!
# Deferring programs

What a program comes to may be put off at its end: it is a deferred program
itself, a pipe into one, or a definition around one. Where no definition has
such an input, bindings only ever hold values.
-/

namespace FieldExpr

namespace Program

/-- Whether a program ends in a deferred one. -/
def deferring : Program → Bool
  | .defer _ => true
  | .pipe _ right => right.deferring
  | .functionDef _ body _ => body.deferring
  | _ => false

/-- No definition in the program has a deferring input. -/
def StrictLets (p : Program) : Prop :=
  ∀ b body input, .functionDef b body input ∈ p.parts → input.deferring = false

theorem StrictLets.part {p q : Program} (strict : p.StrictLets)
    (part : q ∈ p.parts) : q.StrictLets :=
  fun b body input mem => strict b body input (parts_subset part mem)

theorem StrictLets.child {p c : Program} (strict : p.StrictLets)
    (child : c ∈ p.children) : c.StrictLets :=
  strict.part (parts_subset_of_child child c.mem_parts_self)

/-- The definitions in a program are its root and those in its children. -/
theorem StrictLets.of_children {p : Program}
    (children : ∀ c ∈ p.children, c.StrictLets)
    (own : ∀ b body input, p = .functionDef b body input →
      input.deferring = false) : p.StrictLets := by
  intro b body input part
  rw [parts_eq] at part
  rcases List.mem_cons.mp part with same | below
  · exact own b body input same.symm
  · obtain ⟨child, mem, part⟩ := List.mem_flatMap.mp below
    exact children child mem b body input part

/-- A program that leaves nothing suspended, neither in its bindings nor at its
end. -/
structure Settled (p : Program) : Prop where
  strictLets : p.StrictLets
  ends : p.deferring = false

theorem StrictLets.input {b : Binding} {body input : Program}
    (strict : (functionDef b body input).StrictLets) :
    input.Settled :=
  ⟨strict.child (by simp [children]), strict b body input (mem_parts_self _)⟩

theorem Settled.body {b : Binding} {body input : Program}
    (settled : (functionDef b body input).Settled) :
    body.Settled :=
  ⟨settled.strictLets.child (by simp [children]), settled.ends⟩

theorem Settled.right {left right : Program}
    (settled : (pipe left right).Settled) : right.Settled :=
  ⟨settled.strictLets.child (by simp [children]), settled.ends⟩

/-- A program over settled children is settled, unless it defers one. -/
theorem Settled.of_children {p : Program} (children : ∀ c ∈ p.children, c.Settled)
    (own : ∀ inner, p ≠ .defer inner) : p.Settled := by
  constructor
  · refine .of_children (fun c child => (children c child).strictLets) ?_
    rintro b body input rfl
    exact (children input (by simp [Program.children])).ends
  · cases p with
    | defer inner => exact absurd rfl (own inner)
    | functionDef b body input =>
      exact (children body (by simp [Program.children])).ends
    | pipe left right => exact (children right (by simp [Program.children])).ends
    | _ => rfl

end Program

end FieldExpr
