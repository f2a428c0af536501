import FieldExpr.Program.Basic
import FieldExpr.Value.Text

/-!
# Evaluation contexts

The values that a caller gives to bindings, the newest first, and the fraction
digits that decimal division keeps. Extending a context leaves the old one as it
was, and a newer value hides an older one of the same binding.
-/

namespace FieldExpr

/-- Values of bindings, and an ambient decimal scale. -/
structure Context where
  bindings : List (Binding × Value) := []
  decimalScale : Option UInt32 := none

namespace Context

/-- The context with one more value, which hides older ones of the same binding. -/
def extend (c : Context) (binding : Binding) (value : Value) : Context :=
  { c with bindings := (binding, value) :: c.bindings }

/-- The value of a binding. -/
def get? (c : Context) (binding : Binding) : Option Value :=
  c.bindings.lookup binding

/-- Whether a binding has a value. -/
def contains (c : Context) (binding : Binding) : Bool :=
  (c.get? binding).isSome

/-- The number of values, hidden ones included. -/
def size (c : Context) : Nat :=
  c.bindings.length

/-- Whether there is no value. -/
def isEmpty (c : Context) : Bool :=
  c.bindings.isEmpty

/-- Texts, separated by commas. -/
def joined : List (List Char) → List Char
  | [] => []
  | [text] => text
  | text :: rest => text ++ ',' :: ' ' :: joined rest

/-- The outline of a context: its bindings, the newest first, and its scale. -/
def outline (c : Context) : String :=
  let binding :=
    fun (b : Binding) => "Binding(".toList ++ Text.natural b.id.toNat ++ [')']
  let scale := match c.decimalScale with
    | none => "None".toList
    | some scale => "Some(".toList ++ Text.natural scale.toNat ++ [')']
  String.ofList ("EvaluationContext \x7b bindings: [".toList ++
    joined (c.bindings.map fun entry => binding entry.1) ++
    "], capabilities: Capabilities \x7b decimal_scale: ".toList ++ scale ++
      " \x7d \x7d".toList)

/-- The outline of the slot of a binding. -/
def slotOutline? (c : Context) (binding : Binding) : Option String :=
  (c.get? binding).map fun value =>
    String.ofList ("Ready(".toList ++ value.outline ++ [')'])

end Context

end FieldExpr
