import FieldExpr.Program.Basic

/-!
# Scopes of bindings

A lookup has to stand inside the body of a definition of its binding, and no two
definitions may share a binding. `validate` walks the program in the order of
its children and reports the first node at fault.
-/

namespace FieldExpr

/-- A defect in the bindings of a program. -/
inductive ScopeError where
  /-- A lookup that no body of a definition of its binding encloses. -/
  | unboundLookup (binding : Binding)
  /-- A definition whose binding an earlier definition has. -/
  | duplicateBinding (binding : Binding)
  deriving DecidableEq

/-- The message of a defect. -/
def ScopeError.message : ScopeError → String
  | .unboundLookup b =>
    "Lookup of " ++ String.ofList b.text ++ " outside the scope of its definition"
  | .duplicateBinding b =>
    "Binding " ++ String.ofList b.text ++ " is defined more than once"

namespace Program

/-- Check a program inside the bodies of definitions of `scope`, with the
bindings of all earlier definitions; the answer is these bindings together with
the program's own. -/
def checkScope (scope : List Binding) (defined : List Binding) :
    Program → Except ScopeError (List Binding)
  | .identity => .ok defined
  | .lookup b => if b ∈ scope then .ok defined else .error (.unboundLookup b)
  | .immediate inner => inner.checkScope scope defined
  | .defer inner => inner.checkScope scope defined
  | .functionDef b body input =>
    if b ∈ defined then .error (.duplicateBinding b)
    else do
      -- The binding is taken from here on, but in scope only in the body.
      let defined ← input.checkScope scope (b :: defined)
      body.checkScope (b :: scope) defined
  | .literal _ _ => .ok defined
  | .pipe left right => do right.checkScope scope (← left.checkScope scope defined)
  | .equalTo _ left right => do
    right.checkScope scope (← left.checkScope scope defined)
  | .binaryMath _ _ left right => do
    right.checkScope scope (← left.checkScope scope defined)
  | .unaryMath _ _ operand => operand.checkScope scope defined
  | .binaryLogical _ left right => do
    right.checkScope scope (← left.checkScope scope defined)
  | .not operand => operand.checkScope scope defined
  | .diverge condition onTrue onFalse => do
    let defined ← condition.checkScope scope defined
    let defined ← onTrue.checkScope scope defined
    onFalse.checkScope scope defined
  | .tupleGetIndex tuple _ => tuple.checkScope scope defined

/-- The first defect in the bindings of a program, if any. -/
def validate (p : Program) : Except ScopeError Unit :=
  (p.checkScope [] []).map fun _ => ()

end Program

end FieldExpr
