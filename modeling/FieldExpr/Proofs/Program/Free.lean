import FieldExpr.Program.Scope

/-!
# Free bindings

A binding is free in a program that looks it up outside the body of every
definition of it. The input of a definition stands outside its body. A program
that passes the check of its scopes has no free binding: `mem_of_checkScope` is
the check's invariant for a part of a program inside the bodies of a scope.
-/

namespace FieldExpr

namespace Program

/-- A lookup of the binding that no body of a definition of it encloses. -/
def FreeIn (b : Binding) : Program → Prop
  | .identity => False
  | .lookup a => a = b
  | .immediate inner => FreeIn b inner
  | .defer inner => FreeIn b inner
  | .functionDef a body input => FreeIn b input ∨ a ≠ b ∧ FreeIn b body
  | .literal _ _ => False
  | .pipe left right => FreeIn b left ∨ FreeIn b right
  | .equalTo _ left right => FreeIn b left ∨ FreeIn b right
  | .binaryMath _ _ left right => FreeIn b left ∨ FreeIn b right
  | .unaryMath _ _ operand => FreeIn b operand
  | .binaryLogical _ left right => FreeIn b left ∨ FreeIn b right
  | .not operand => FreeIn b operand
  | .diverge condition onTrue onFalse =>
    FreeIn b condition ∨ FreeIn b onTrue ∨ FreeIn b onFalse
  | .tupleGetIndex tuple _ => FreeIn b tuple

/-- Two checks in a row succeed together. -/
theorem check_both {α : Type} {first : Except ScopeError α}
    {second : α → Except ScopeError α} {result : α}
    (checked : first >>= second = .ok result) :
    ∃ between, first = .ok between ∧ second between = .ok result := by
  cases first with
  | error defect => cases checked
  | ok between => exact ⟨between, rfl, checked⟩

/-- The case of two parts that are checked in one scope. -/
theorem mem_of_checkBoth {left right : Program} {b : Binding}
    (leftIH : ∀ {scope defined result : List Binding},
      left.checkScope scope defined = .ok result → FreeIn b left → b ∈ scope)
    (rightIH : ∀ {scope defined result : List Binding},
      right.checkScope scope defined = .ok result → FreeIn b right → b ∈ scope)
    {scope defined result : List Binding}
    (checked : left.checkScope scope defined >>=
      (fun defined => right.checkScope scope defined) = .ok result)
    (free : FreeIn b left ∨ FreeIn b right) : b ∈ scope := by
  obtain ⟨between, leftChecked, rightChecked⟩ := check_both checked
  rcases free with free | free
  · exact leftIH leftChecked free
  · exact rightIH rightChecked free

/-- What is free in a part that passes the check is in the part's scope. -/
theorem mem_of_checkScope {p : Program} {b : Binding} :
    ∀ {scope defined result : List Binding},
      p.checkScope scope defined = .ok result → FreeIn b p → b ∈ scope := by
  induction p with
  | identity =>
    intro scope defined result _ free
    exact free.elim
  | lookup a =>
    intro scope defined result checked free
    simp only [checkScope] at checked
    split at checked
    · rename_i bound
      exact free ▸ bound
    · cases checked
  | immediate inner ih =>
    intro scope defined result checked free
    exact ih checked free
  | defer inner ih =>
    intro scope defined result checked free
    exact ih checked free
  | functionDef a body input bodyIH inputIH =>
    intro scope defined result checked free
    simp only [checkScope] at checked
    split at checked
    · cases checked
    · obtain ⟨between, inputChecked, bodyChecked⟩ := check_both checked
      rcases free with free | ⟨different, free⟩
      · exact inputIH inputChecked free
      · -- The body is checked with the binding in scope, and that is not
        -- the free one.
        rcases List.mem_cons.mp (bodyIH bodyChecked free) with same | bound
        · exact absurd same.symm different
        · exact bound
  | literal value shape =>
    intro scope defined result _ free
    exact free.elim
  | unaryMath op tag operand ih =>
    intro scope defined result checked free
    exact ih checked free
  | not operand ih =>
    intro scope defined result checked free
    exact ih checked free
  | tupleGetIndex tuple index ih =>
    intro scope defined result checked free
    exact ih checked free
  | diverge condition onTrue onFalse conditionIH trueIH falseIH =>
    intro scope defined result checked free
    obtain ⟨first, conditionChecked, rest⟩ := check_both checked
    obtain ⟨second, trueChecked, falseChecked⟩ := check_both rest
    rcases free with free | free | free
    · exact conditionIH conditionChecked free
    · exact trueIH trueChecked free
    · exact falseIH falseChecked free
  | pipe left right leftIH rightIH => exact mem_of_checkBoth leftIH rightIH
  | equalTo tag left right leftIH rightIH => exact mem_of_checkBoth leftIH rightIH
  | binaryMath op tag left right leftIH rightIH =>
    exact mem_of_checkBoth leftIH rightIH
  | binaryLogical op left right leftIH rightIH =>
    exact mem_of_checkBoth leftIH rightIH

/-- A program that passes the check has no free binding. -/
theorem not_freeIn_of_validate {p : Program} (valid : p.validate = .ok ())
    (b : Binding) : ¬ FreeIn b p := by
  intro free
  unfold validate at valid
  cases checked : p.checkScope [] [] with
  | error defect =>
    rw [checked] at valid
    cases valid
  | ok result => exact absurd (mem_of_checkScope checked free) List.not_mem_nil

end Program

end FieldExpr
