import FieldExpr.Proofs.Evaluation.Rule

/-!
# Two evaluations abreast

Two programs that differ at most in their literals are evaluated at the same
time, each node of the one together with the same node of the other. Wherever an
evaluation has a value, the two abreast have one on each side, and the rules of
strict nodes are applied to both sides.

Selection by position is where the sides may come apart: it follows the order of
a record's fields, so it may take elements from the two sides that are not the
same. What stands in their place from then on is `split`. It can be bound,
piped, deferred and passed on, but not read: where a rule needs its value, or
the whole evaluation ends in it, the two abreast halt. That is what it is for an
evaluation to depend on the order in which the other program lists fields
(`Program.DependsOnOrder`).
-/

namespace FieldExpr

/-- What two evaluations have in the same place. -/
inductive Both where
  /-- A value on each side. -/
  | values (v v' : Value)
  /-- Elements that selection by position took, and that are not the same. -/
  | split

/-- The elements that are selected on the two sides. -/
def Both.ofElements (w w' : Value) : Both :=
  if w.same w' then .values w w' else .split

/-- Why two evaluations abreast come to no values. -/
inductive Halt where
  /-- Both sides fail with an error. -/
  | failed (e : EvaluationError)
  /-- An element is read that is not the same on the two sides. -/
  | splitRead

/-- The value on each side. -/
def Both.read : Both → Except Halt (Value × Value)
  | .values v v' => .ok (v, v')
  | .split => .error .splitRead

namespace Abreast

/-- What both sides have, or the number of the cells that will have it. -/
inductive Slot where
  | ready (b : Both)
  | deferred (cell : Nat)

/-- What bindings hold, the newest first. -/
abbrev Scope := List (Binding × Slot)

/-- The same part of two programs, with all that its evaluation depends on. -/
structure Closure where
  left : Program
  right : Program
  scope : Scope
  subject : Both

/-- The closure of a child of each side. -/
def Closure.child (c : Closure) (left right : Program) : Closure :=
  { c with left, right }

/-- A deferred closure, and what it came to if it has been forced. -/
structure Cell where
  closure : Closure
  outcome : Option Both

/-- A computation on both sides, over the cells so far. -/
abbrev Run (α : Type) := ExceptT Halt (StateM (Array Cell)) α

namespace Run

/-- A result, or an error of both sides where there is none. -/
def orThrow {α : Type} (error : EvaluationError) : Option α → Run α
  | some a => return a
  | none => throw (.failed error)

/-- The values that a rule needs. -/
def read (b : Both) : Run (Value × Value) :=
  ExceptT.mk (pure b.read)

/-- What a rule gives on the two sides, put together. -/
def sides {α β : Type} (together : α → α → β) :
    Except EvaluationError α → Except EvaluationError α → Run β
  | .ok a, .ok a' => return together a a'
  | .error e, _ => throw (.failed e)
  | .ok _, .error e => throw (.failed e)

/-- A truth value that a rule gives on the two sides alike. -/
def truth : Except EvaluationError Bool → Except EvaluationError Bool → Run Bool :=
  sides fun b _ => b

/-- A new cell for a closure. -/
def suspend (c : Closure) : Run Slot := do
  let number := (← get).size
  modify fun cells => cells.push ⟨c, none⟩
  return .deferred number

/-- A cell with what it came to. -/
def remember (cells : Array Cell) (number : Nat) (b : Both) : Array Cell :=
  cells.modify number fun cell => { cell with outcome := some b }

/-- What a cell came to, or else what `demand` gives, which is remembered. -/
def force (demand : Closure → Run Both) (number : Nat) : Run Both := do
  match (← get)[number]? with
  | none => return .values .unit .unit
  | some cell =>
    match cell.outcome with
    | some b => return b
    | none =>
      let b ← demand cell.closure
      modify fun cells => remember cells number b
      return b

/-- An operand of equality or arithmetic. -/
def operand (demand : Closure → Run Both) (c : Closure) : Run Both :=
  match c.left, c.right with
  | .literal v shape, .literal v' _ =>
    sides .values (Rule.literal shape v) (Rule.literal shape v')
  | _, _ => demand c

/-- A truth value that an operator needs. -/
def condition (demand : Closure → Run Both) (operator : Operator) (c : Closure) :
    Run Bool := do
  let v ← read (← demand c)
  truth (Rule.condition operator v.1) (Rule.condition operator v.2)

/-- The rule of each node, given how its parts are evaluated. Nothing is known about
nodes that are not of one kind. -/
def node (settings : Settings) (eval : Closure → Run Slot)
    (demand : Closure → Run Both) (c : Closure) : Run Slot :=
  match c.left, c.right with
  | .identity, .identity => return .ready c.subject
  | .lookup b, .lookup _ => orThrow (.unboundBinding b) (c.scope.lookup b)
  | .literal v _, .literal v' _ => return .ready (.values v v')
  | .immediate inner, .immediate inner' =>
    return .ready (← demand (c.child inner inner'))
  | .defer inner, .defer inner' => suspend (c.child inner inner')
  | .functionDef b body input, .functionDef _ body' input' => do
    let slot ← eval (c.child input input')
    eval { c.child body body' with scope := (b, slot) :: c.scope }
  | .pipe left right, .pipe left' right' => do
    let subject ← demand (c.child left left')
    eval { c.child right right' with subject }
  | .equalTo tag left right, .equalTo _ left' right' => do
    let l ← operand demand (c.child left left')
    let r ← operand demand (c.child right right')
    let l ← read l
    let r ← read r
    let b ← truth (Rule.equalTo tag l.1 r.1) (Rule.equalTo tag l.2 r.2)
    return .ready (.values (.boolean b) (.boolean b))
  | .binaryMath op tag left right, .binaryMath _ _ left' right' => do
    let l ← operand demand (c.child left left')
    let r ← operand demand (c.child right right')
    let l ← read l
    let r ← read r
    return .ready (← sides .values (Rule.binaryMath settings op tag l.1 r.1)
      (Rule.binaryMath settings op tag l.2 r.2))
  | .unaryMath op tag inner, .unaryMath _ _ inner' => do
    let v ← read (← operand demand (c.child inner inner'))
    return .ready (← sides .values (Rule.unaryMath op tag v.1)
      (Rule.unaryMath op tag v.2))
  | .binaryLogical op left right, .binaryLogical _ left' right' => do
    let l ← condition demand (Rule.connective op) (c.child left left')
    if Rule.decides op l then return .ready (.values (.boolean l) (.boolean l))
    else
      let r ← condition demand (Rule.connective op) (c.child right right')
      return .ready (.values (.boolean r) (.boolean r))
  | .not inner, .not inner' => do
    let b ← condition demand .not (c.child inner inner')
    return .ready (.values (.boolean !b) (.boolean !b))
  | .diverge chooser onTrue onFalse, .diverge chooser' onTrue' onFalse' => do
    let choice ← condition demand .diverge (c.child chooser chooser')
    if choice then return .ready (← demand (c.child onTrue onTrue'))
    else return .ready (← demand (c.child onFalse onFalse'))
  | .tupleGetIndex tuple index, .tupleGetIndex tuple' _ => do
    let v ← read (← demand (c.child tuple tuple'))
    return .ready (← sides .ofElements (Rule.select index v.1)
      (Rule.select index v.2))
  | _, _ => return .ready .split

mutual

/-- The slot of a closure. -/
def eval (settings : Settings) : (budget : Nat) → Closure → Run Slot
  | 0, _ => throw (.failed (.depthLimitExceeded settings.maxDepth))
  | budget + 1, c => node settings (eval settings budget) (demand settings budget) c

/-- What a closure comes to. A cell that it yields is forced one level deeper. -/
def demand (settings : Settings) : (budget : Nat) → Closure → Run Both
  | 0, _ => throw (.failed (.depthLimitExceeded settings.maxDepth))
  | budget + 1, c => do
    let slot ← node settings (eval settings budget) (demand settings budget) c
    match slot with
    | .ready b => return b
    | .deferred number => force (demand settings budget) number

end

/-! ## Running -/

theorem run_bind {α β : Type} (x : Run α) (f : α → Run β) (cells : Array Cell) :
    (x >>= f).run cells = match x.run cells with
      | (.ok a, after) => (f a).run after
      | (.error halt, after) => (.error halt, after) := by
  change (match x.run cells with
    | (result, after) => ExceptT.bindCont f result after) = _
  cases x.run cells with
  | mk result after => cases result <;> rfl

@[simp]
theorem run_get (cells : Array Cell) :
    (get : Run (Array Cell)).run cells = (.ok cells, cells) := rfl

variable {demand : Closure → Run Both} {cells : Array Cell} {number : Nat}

/-- A number without a cell stands for unit. -/
theorem run_force_absent (absent : cells[number]? = none) :
    (force demand number).run cells = (.ok (.values .unit .unit), cells) := by
  unfold force
  rw [run_bind, run_get]
  dsimp only
  rw [absent]
  rfl

/-- A cell that has been forced gives back what it came to. -/
theorem run_force_known {cell : Cell} {b : Both}
    (found : cells[number]? = some cell) (known : cell.outcome = some b) :
    (force demand number).run cells = (.ok b, cells) := by
  unfold force
  rw [run_bind, run_get]
  dsimp only
  rw [found]
  dsimp only
  rw [known]
  rfl

/-- A cell that has not been forced comes to what its closure does. -/
theorem run_force_open {cell : Cell} (found : cells[number]? = some cell)
    (unknown : cell.outcome = none) :
    (force demand number).run cells = match (demand cell.closure).run cells with
      | (.ok b, after) => (.ok b, remember after number b)
      | (.error halt, after) => (.error halt, after) := by
  unfold force
  rw [run_bind, run_get]
  dsimp only
  rw [found]
  dsimp only
  rw [unknown]
  dsimp only
  rw [run_bind]
  cases (demand cell.closure).run cells with
  | mk result after => cases result <;> rfl

end Run

/-- The closure of two whole programs. -/
def closure (p q : Program) (context : Context) (subject : Value) : Closure where
  left := p
  right := q
  scope := context.bindings.map fun (binding, value) =>
    (binding, .ready (.values value value))
  subject := .values subject subject

end Abreast

namespace Program

/-- The values of two programs abreast, against a subject in a context. -/
def abreast (p q : Program) (config : EngineConfig) (context : Context)
    (subject : Value) : Except Halt (Value × Value) :=
  let settings := Settings.ofConfig config context
  let run := Abreast.Run.demand settings (settings.maxDepth + 1)
    (Abreast.closure p q context subject)
  (run.run #[]).1 >>= Both.read

/-- The evaluation of `p` depends on the order in which `q` lists the fields of
records: it reads, or ends in, an element selected by position in whose place
the evaluation of `q` has another one. -/
def DependsOnOrder (p q : Program) (config : EngineConfig) (context : Context)
    (subject : Value) : Prop :=
  p.abreast q config context subject = .error .splitRead

end Program

end FieldExpr
