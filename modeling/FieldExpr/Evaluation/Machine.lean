import FieldExpr.Evaluation.Error

/-!
# The state of an evaluation

A deferred program becomes a closure in a numbered cell, which remembers the
outcome once it has been forced. A slot, in a scope or as the outcome of a node,
is a value or the number of such a cell. Beside the cells the machine records
every node that is entered, in order.
-/

namespace FieldExpr

/-- A value, or the number of a cell that will have one. -/
inductive Slot where
  | ready (value : Value)
  | deferred (cell : Nat)

/-- What bindings hold, the newest first. -/
abbrev Scope := List (Binding × Slot)

/-- A part of a program with all that its evaluation depends on. -/
structure Closure where
  program : Program
  /-- Where the part stands in the whole program. -/
  position : Program.Position
  scope : Scope
  subject : Value

/-- The closure of a child, in the same scope and with the same subject. -/
def Closure.child (c : Closure) (number : Nat) (program : Program) : Closure :=
  { c with program, position := number :: c.position }

/-- A deferred closure, and its outcome once it has been forced. -/
structure Cell where
  closure : Closure
  outcome : Option (Except EvaluationError Value)

/-- The entry into one node. -/
structure Visit where
  position : Program.Position
  kind : NodeKind
  depth : Nat

/-- The cells so far, and the nodes entered so far. -/
structure Machine where
  cells : Array Cell := #[]
  visits : Array Visit := #[]

/-- A computation that changes the machine and may fail; a failure keeps the
machine. -/
abbrev Run (α : Type) := ExceptT EvaluationError (StateM Machine) α

namespace Run

/-- Record the entry into a node. -/
def enter (c : Closure) (depth : Nat) : Run Unit :=
  modify fun m =>
    { m with visits := m.visits.push ⟨c.position, c.program.kind, depth⟩ }

/-- A new cell for a closure. -/
def suspend (c : Closure) : Run Slot := do
  let number := (← get).cells.size
  modify fun m => { m with cells := m.cells.push ⟨c, none⟩ }
  return .deferred number

/-- The outcome of a cell: the remembered one, or else that of `demand`,
which is remembered. A number that no cell has stands for unit; no
computation here makes one. -/
def force (demand : Closure → Run Value) (number : Nat) : Run Value := do
  match (← get).cells[number]? with
  | none => return .unit
  | some cell =>
    match cell.outcome with
    | some outcome => liftExcept outcome
    | none =>
      let outcome ← captured (demand cell.closure)
      modify fun m =>
        { m with cells := m.cells.modify number fun cell =>
          { cell with outcome := some outcome } }
      liftExcept outcome
where
  /-- An outcome that is known already. -/
  liftExcept (outcome : Except EvaluationError Value) : Run Value :=
    ExceptT.mk (pure outcome)
  /-- The outcome of a computation, as a value. -/
  captured (x : Run Value) : Run (Except EvaluationError Value) :=
    ExceptT.lift x.run

end Run

end FieldExpr
