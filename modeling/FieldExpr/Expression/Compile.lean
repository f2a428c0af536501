import FieldExpr.Expression.Basic
import FieldExpr.Log

/-!
# Compilation

Names become bindings, numbered from a counter in the order in which their
definitions are met: the binding of a definition comes first, then those of its
input, then those of its body. Branches are deferred. Compilation does not fail;
a name that nothing binds becomes a lookup that no definition covers.
-/

namespace FieldExpr

/-- The bindings of the names in scope, the innermost first. -/
abbrev NameScope := List (String × Binding)

/-- Compilation, on the number of bindings allocated so far. -/
abbrev Compiling (α : Type) := StateM UInt64 α

namespace Compiling

/-- The next binding. -/
def allocate : Compiling Binding :=
  fun next => (⟨next⟩, next + 1)

end Compiling

/-- The last binding there is. A program would need more definitions than there
are words to allocate it. -/
def Binding.last : Binding :=
  ⟨0xffffffffffffffff⟩

/-- A branch, deferred unless it is so already. -/
def Program.asBranch : Program → Program
  | .defer inner => .defer inner
  | other => .defer other

mutual

/-- The program of an expression. -/
def Expression.compileIn (names : NameScope) : Expression → Compiling Program
  | .identity => return .identity
  | .var name => return .lookup ((names.lookup name).getD .last)
  | .literal value shape => return .literal value shape
  | .immediate inner => return .immediate (← inner.compileIn names)
  | .defer inner => return .defer (← inner.compileIn names)
  -- The argument is compiled where the function asks for it, behind its own
  -- binding.
  | .apply function argument => function.compileIn names (argument.compileIn names)
  | .pipe left right => do
    let l ← left.compileIn names
    let r ← right.compileIn names
    return .pipe l r
  | .equalTo tag left right => do
    let l ← left.compileIn names
    let r ← right.compileIn names
    return .equalTo tag l r
  | .binaryMath op tag left right => do
    let l ← left.compileIn names
    let r ← right.compileIn names
    return .binaryMath op tag l r
  | .unaryMath op tag operand =>
    return .unaryMath op tag (← operand.compileIn names)
  | .binaryLogical op left right => do
    let l ← left.compileIn names
    let r ← right.compileIn names
    return .binaryLogical op l r
  | .not operand => return .not (← operand.compileIn names)
  | .diverge condition onTrue onFalse => do
    let c ← condition.compileIn names
    let t ← onTrue.compileIn names
    let f ← onFalse.compileIn names
    return .diverge c t.asBranch f.asBranch
  | .tupleGetIndex tuple index =>
    return .tupleGetIndex (← tuple.compileIn names) index

/-- The definition that applies a function to an input. A composition
binds the input once more and applies its parts to that binding, the first
inside the second. -/
def Function.compileIn (names : NameScope) :
    Function → (input : Compiling Program) → Compiling Program
  | .named parameter body, input => do
    let binding ← Compiling.allocate
    let input ← input
    let body ← body.compileIn ((parameter, binding) :: names)
    return .functionDef binding body input
  | .andThen first second, input => do
    let binding ← Compiling.allocate
    let input ← input
    let body ← second.compileIn names
      (first.compileIn names (return .lookup binding))
    return .functionDef binding body input

end

namespace Expression

/-- The program of an expression, and the number of bindings allocated after it,
where some number was allocated before. -/
def compileWith (e : Expression) (allocated : UInt64) : Program × UInt64 :=
  (e.compileIn []).run allocated

/-- The program of an expression on its own. -/
def compile (e : Expression) : Program :=
  (e.compileWith 0).1

/-- What the log says about a compilation. -/
def compileLog (compiled : Program × UInt64) : List LogEntry :=
  [⟨.debug, "Compiled expression into " ++
    String.ofList (Text.natural compiled.1.nodeCount) ++ " nodes, " ++
    String.ofList (Text.natural compiled.2.toNat) ++ " bindings allocated"⟩]

end Expression

end FieldExpr
