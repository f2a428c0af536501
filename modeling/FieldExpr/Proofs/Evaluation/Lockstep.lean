import FieldExpr.Proofs.Evaluation.Rule

/-!
# Evaluations in lockstep

Two evaluations of programs of one shape allocate their cells in the same order,
so a cell of one stands for the cell of the same number of the other. A
`Likeness` says which errors and closures stand for each other; values stand for
themselves. If every pair of alike closures has alike nodes (`Nodes`), whole
evaluations are alike too: `Lawful.evaluationUnder` compares their results and
the nodes they enter.

The left evaluation may end in an error that excuses the right one from
everything. This is how a left evaluation with a smaller budget, or one that fails
where the other has something to evaluate, is compared with one that goes on.
-/

namespace FieldExpr

open Run

/-- What stands for what in two evaluations. -/
structure Likeness where
  error : EvaluationError → EvaluationError → Prop
  /-- Errors of the left evaluation after which nothing is asked of the right
  one. -/
  excused : EvaluationError → Prop
  closure : Closure → Closure → Prop

namespace Likeness

variable (L : Likeness) {α β : Type}

/-- Results that stand for each other. -/
inductive Outcomes : Except EvaluationError α → Except EvaluationError α → Prop
  | ok (a : α) : Outcomes (.ok a) (.ok a)
  | error {e e'} : L.error e e' → Outcomes (.error e) (.error e')
  | excused {e x} : L.excused e → Outcomes (.error e) x

/-- Cells that stand for each other. -/
structure Cells (cell cell' : Cell) : Prop where
  closure : L.closure cell.closure cell'.closure
  outcome : Option.Rel L.Outcomes cell.outcome cell'.outcome

/-- Machines that have entered the same nodes and whose cells stand for each
other one by one. -/
structure Machines (m m' : Machine) : Prop where
  visits : m.visits = m'.visits
  size : m.cells.size = m'.cells.size
  cells : ∀ number : Nat, Option.Rel L.Cells m.cells[number]? m'.cells[number]?

/-- What two runs come to. Once a run has failed only the nodes it has entered
are still compared. -/
inductive Ends :
    Except EvaluationError α × Machine → Except EvaluationError α × Machine → Prop
  | ok (a : α) {m m'} : L.Machines m m' → Ends (.ok a, m) (.ok a, m')
  | error {e e' m m'} : L.error e e' → m.visits = m'.visits →
    Ends (.error e, m) (.error e', m')
  | excused {e m y} : L.excused e → Ends (.error e, m) y

/-- Two runs that stay alike from alike machines. -/
def Runs (x y : Run α) : Prop :=
  ∀ m m', L.Machines m m' → L.Ends (x.on m) (y.on m')

/-! ## Rules of runs -/

namespace Runs

variable {L}

theorem pure (a : α) : L.Runs (Pure.pure a) (Pure.pure a) := by
  intro m m' machines
  exact .ok a machines

theorem lift {x y : Except EvaluationError α} (outcomes : L.Outcomes x y) :
    L.Runs (Run.lift x) (Run.lift y) := by
  intro m m' machines
  rw [on_lift, on_lift]
  cases outcomes with
  | ok a => exact .ok a machines
  | error related => exact .error related machines.visits
  | excused excuse => exact .excused excuse

theorem bind {x y : Run α} {f g : α → Run β} (first : L.Runs x y)
    (next : ∀ a, L.Runs (f a) (g a)) :
    L.Runs (x >>= f) (y >>= g) := by
  intro m m' machines
  rw [on_bind, on_bind]
  have ends := first m m' machines
  generalize x.on m = left at ends
  generalize y.on m' = right at ends
  cases ends with
  | ok a machines => exact next a _ _ machines
  | error related visits => exact .error related visits
  | excused excuse => exact .excused excuse

/-- Values that are given as slots. -/
theorem ready {x y : Run Value} (values : L.Runs x y) :
    L.Runs (do return Slot.ready (← x)) (do return Slot.ready (← y)) :=
  .bind values fun v => .pure (Slot.ready v)

/-- A left run that fails with an excuse may stand beside any right run. -/
theorem excused {x y : Run α} {e : EvaluationError} (excuse : L.excused e)
    (fails : ∀ m, (x.on m).1 = .error e) : L.Runs x y := by
  intro m m' _
  have failed := fails m
  generalize x.on m = left at failed
  obtain ⟨result, n⟩ := left
  cases failed
  exact .excused excuse

theorem enter {c c' : Closure} (depth : Nat) (position : c.position = c'.position)
    (kind : c.program.kind = c'.program.kind) :
    L.Runs (Run.enter c depth) (Run.enter c' depth) := by
  intro m m' machines
  rw [on_enter, on_enter]
  refine .ok () ⟨?_, machines.size, machines.cells⟩
  rw [machines.visits, position, kind]

theorem suspend {c c' : Closure} (closure : L.closure c c') :
    L.Runs (Run.suspend c) (Run.suspend c') := by
  intro m m' machines
  rw [on_suspend, on_suspend, machines.size]
  refine .ok (Slot.deferred _) ⟨machines.visits, by simp [machines.size],
    fun number => ?_⟩
  rw [Array.getElem?_push, Array.getElem?_push, machines.size]
  split
  · exact .some ⟨closure, .none⟩
  · exact machines.cells number

/-- The outcome of a cell, remembered in both machines. -/
theorem remember {m m' : Machine} (machines : L.Machines m m') (number : Nat)
    {x x' : Except EvaluationError Value} (outcomes : L.Outcomes x x') :
    L.Machines (Run.remember m number x) (Run.remember m' number x') := by
  refine ⟨machines.visits, ?_, fun other => ?_⟩
  · simp [Run.remember, machines.size]
  · simp only [Run.remember, Array.getElem?_modify]
    split
    · have cells := machines.cells other
      generalize m.cells[other]? = left at cells
      generalize m'.cells[other]? = right at cells
      cases cells with
      | none => exact .none
      | some cells => exact .some ⟨cells.closure, .some outcomes⟩
    · exact machines.cells other

/-- Forcing cells of one number: both remember an outcome, or both take one
and remember it. -/
theorem force {demand demand' : Closure → Run Value} (number : Nat)
    (demands : ∀ c c', L.closure c c' → L.Runs (demand c) (demand' c')) :
    L.Runs (Run.force demand number) (Run.force demand' number) := by
  intro m m' machines
  have cells := machines.cells number
  generalize found : m.cells[number]? = left at cells
  generalize found' : m'.cells[number]? = right at cells
  cases cells with
  | none =>
    rw [on_force_absent found, on_force_absent found']
    exact .ok Value.unit machines
  | @some cell cell' cells =>
    -- Cells that stand for each other both remember an outcome or both do not.
    have outcomes := cells.outcome
    generalize known : cell.outcome = known at outcomes
    generalize known' : cell'.outcome = known' at outcomes
    cases outcomes with
    | some outcomes =>
      rw [on_force_known found known, on_force_known found' known']
      exact Runs.lift outcomes m m' machines
    | none =>
      rw [on_force_open found known, on_force_open found' known']
      have ends := demands _ _ cells.closure m m' machines
      generalize (demand cell.closure).on m = left at ends
      generalize (demand' cell'.closure).on m' = right at ends
      cases ends with
      | ok v machines => exact .ok v (remember machines number (.ok v))
      | error related visits => exact .error related visits
      | excused excuse => exact .excused excuse

end Runs

/-! ## Alike nodes -/

/-- Closures whose nodes are of one kind and whose parts stand for each
other, whatever the right side of a pipe and the body of a definition get
from evaluation. -/
inductive Nodes (settings : Settings) : Closure → Closure → Prop
  | identity {position scope scope' subject} :
    Nodes settings ⟨.identity, position, scope, subject⟩
      ⟨.identity, position, scope', subject⟩
  | lookup {b b' position scope scope' subject subject'} :
    L.Outcomes (Rule.orFail (.unboundBinding b) (scope.lookup b))
      (Rule.orFail (.unboundBinding b') (scope'.lookup b')) →
    Nodes settings ⟨.lookup b, position, scope, subject⟩
      ⟨.lookup b', position, scope', subject'⟩
  /-- A lookup that fails with an excuse stands beside any node. -/
  | hole {b position scope subject c'} : scope.lookup b = none →
    L.excused (.unboundBinding b) →
    L.excused (.depthLimitExceeded settings.maxDepth) →
    Nodes settings ⟨.lookup b, position, scope, subject⟩ c'
  | literal {v shape position scope scope' subject subject'} :
    Nodes settings ⟨.literal v shape, position, scope, subject⟩
      ⟨.literal v shape, position, scope', subject'⟩
  | immediate {inner inner' position scope scope' subject subject'} :
    L.closure ⟨inner, 0 :: position, scope, subject⟩ ⟨inner', 0 :: position,
      scope', subject'⟩ →
    Nodes settings ⟨.immediate inner, position, scope, subject⟩
      ⟨.immediate inner', position, scope', subject'⟩
  | defer {inner inner' position scope scope' subject subject'} :
    L.closure ⟨inner, 0 :: position, scope, subject⟩ ⟨inner', 0 :: position,
      scope', subject'⟩ →
    Nodes settings ⟨.defer inner, position, scope, subject⟩
      ⟨.defer inner', position, scope', subject'⟩
  | functionDef {b b' body body' input input' position scope scope' subject
      subject'} :
    L.closure ⟨input, 0 :: position, scope, subject⟩ ⟨input', 0 :: position,
      scope', subject'⟩ →
    (∀ slot, L.closure ⟨body, 1 :: position, (b, slot) :: scope, subject⟩
      ⟨body', 1 :: position, (b', slot) :: scope', subject'⟩) →
    Nodes settings ⟨.functionDef b body input, position, scope, subject⟩
      ⟨.functionDef b' body' input', position, scope', subject'⟩
  | pipe {l l' r r' position scope scope' subject subject'} :
    L.closure ⟨l, 0 :: position, scope, subject⟩ ⟨l', 0 :: position, scope',
      subject'⟩ →
    (∀ v, L.closure ⟨r, 1 :: position, scope, v⟩ ⟨r', 1 :: position, scope', v⟩) →
    Nodes settings ⟨.pipe l r, position, scope, subject⟩
      ⟨.pipe l' r', position, scope', subject'⟩
  | equalTo {tag l l' r r' position scope scope' subject subject'} :
    L.closure ⟨l, 0 :: position, scope, subject⟩ ⟨l', 0 :: position, scope',
      subject'⟩ →
    L.closure ⟨r, 1 :: position, scope, subject⟩ ⟨r', 1 :: position, scope',
      subject'⟩ →
    Nodes settings ⟨.equalTo tag l r, position, scope, subject⟩
      ⟨.equalTo tag l' r', position, scope', subject'⟩
  | binaryMath {op tag l l' r r' position scope scope' subject subject'} :
    L.closure ⟨l, 0 :: position, scope, subject⟩ ⟨l', 0 :: position, scope',
      subject'⟩ →
    L.closure ⟨r, 1 :: position, scope, subject⟩ ⟨r', 1 :: position, scope',
      subject'⟩ →
    Nodes settings ⟨.binaryMath op tag l r, position, scope, subject⟩
      ⟨.binaryMath op tag l' r', position, scope', subject'⟩
  | unaryMath {op tag inner inner' position scope scope' subject subject'} :
    L.closure ⟨inner, 0 :: position, scope, subject⟩ ⟨inner', 0 :: position,
      scope', subject'⟩ →
    Nodes settings ⟨.unaryMath op tag inner, position, scope, subject⟩
      ⟨.unaryMath op tag inner', position, scope', subject'⟩
  | binaryLogical {op l l' r r' position scope scope' subject subject'} :
    L.closure ⟨l, 0 :: position, scope, subject⟩ ⟨l', 0 :: position, scope',
      subject'⟩ →
    L.closure ⟨r, 1 :: position, scope, subject⟩ ⟨r', 1 :: position, scope',
      subject'⟩ →
    Nodes settings ⟨.binaryLogical op l r, position, scope, subject⟩
      ⟨.binaryLogical op l' r', position, scope', subject'⟩
  | not {inner inner' position scope scope' subject subject'} :
    L.closure ⟨inner, 0 :: position, scope, subject⟩ ⟨inner', 0 :: position,
      scope', subject'⟩ →
    Nodes settings ⟨.not inner, position, scope, subject⟩
      ⟨.not inner', position, scope', subject'⟩
  | diverge {chooser chooser' t t' f f' position scope scope' subject subject'} :
    L.closure ⟨chooser, 0 :: position, scope, subject⟩ ⟨chooser', 0 :: position,
      scope', subject'⟩ →
    L.closure ⟨t, 1 :: position, scope, subject⟩ ⟨t', 1 :: position, scope',
      subject'⟩ →
    L.closure ⟨f, 2 :: position, scope, subject⟩ ⟨f', 2 :: position, scope',
      subject'⟩ →
    Nodes settings ⟨.diverge chooser t f, position, scope, subject⟩
      ⟨.diverge chooser' t' f', position, scope', subject'⟩
  | tupleGetIndex {tuple tuple' index position scope scope' subject subject'} :
    L.closure ⟨tuple, 0 :: position, scope, subject⟩ ⟨tuple', 0 :: position,
      scope', subject'⟩ →
    Nodes settings ⟨.tupleGetIndex tuple index, position, scope, subject⟩
      ⟨.tupleGetIndex tuple' index, position, scope', subject'⟩

/-- A likeness that evaluation under two settings keeps: the errors of strict
nodes stand for themselves, alike closures have alike nodes, and either the left
evaluation may run out of depth or both have the same limit. -/
structure Lawful (settings settings' : Settings) : Prop where
  operand : ∀ e, Rule.OperandError e → L.error e e
  decimalScale : settings.decimalScale = settings'.decimalScale
  node : ∀ {c c'}, L.closure c c' → L.Nodes settings c c'
  depth_le : settings.maxDepth ≤ settings'.maxDepth
  limit : L.excused (.depthLimitExceeded settings.maxDepth) ∨
    settings.maxDepth = settings'.maxDepth ∧
      L.error (.depthLimitExceeded settings.maxDepth)
        (.depthLimitExceeded settings'.maxDepth)

namespace Lawful

variable {L} {settings settings' : Settings} (lawful : L.Lawful settings settings')
  {eval eval' : Closure → Run Slot} {demand demand' : Closure → Run Value}

include lawful

/-- The rule of a strict node comes to the same on both sides. -/
theorem blameless {x : Except EvaluationError α} (blameless : Rule.Blameless x) :
    L.Runs (Run.lift x) (Run.lift x) := by
  refine .lift ?_
  cases x with
  | ok a => exact .ok a
  | error e => exact .error (lawful.operand e (blameless e rfl))

/-- Arithmetic rounds alike on both sides. -/
theorem binaryMath_eq (op : BinaryMathOp) (tag : NumericTag) (l r : Value) :
    Rule.binaryMath settings' op tag l r = Rule.binaryMath settings op tag l r := by
  cases op <;> simp only [Rule.binaryMath, Rule.arithmetic, lawful.decimalScale]

section

variable (evals : ∀ c c', L.closure c c' → L.Runs (eval c) (eval' c'))
  (demands : ∀ c c', L.closure c c' → L.Runs (demand c) (demand' c'))
  (holes : ∀ {b position scope subject} {y : Run Value}, scope.lookup b = none →
    L.excused (.unboundBinding b) →
    L.excused (.depthLimitExceeded settings.maxDepth) →
    L.Runs (demand ⟨.lookup b, position, scope, subject⟩) y)

include demands

theorem conditions (operator : Operator) {c c' : Closure}
    (closure : L.closure c c') :
    L.Runs (Run.condition demand operator c)
      (Run.condition demand' operator c') := by
  rw [condition_eq, condition_eq]
  exact .bind (demands _ _ closure) fun v =>
    lawful.blameless (.condition operator v)

include holes

theorem operands {c c' : Closure} (closure : L.closure c c') :
    L.Runs (Run.operand demand c) (Run.operand demand' c') := by
  have nodes := lawful.node closure
  -- A literal operand is rebuilt and not demanded, and a hole may stand
  -- beside a literal.
  cases nodes with
  | literal =>
    rw [operand_literal, operand_literal]
    exact lawful.blameless (.literal _ _)
  | hole absent excuse limit =>
    rw [operand_of_not_literal _ (by intro v s h; cases h)]
    exact holes absent excuse limit
  | _ =>
    rw [operand_of_not_literal _ (by intro v s h; cases h),
      operand_of_not_literal _ (by intro v s h; cases h)]
    exact demands _ _ closure

include evals

/-- Alike nodes run alike if their parts do. -/
theorem nodes {c c' : Closure} (alike : L.Nodes settings c c') :
    L.Runs (Run.node settings eval demand c)
      (Run.node settings' eval' demand' c') := by
  cases alike with
  | identity => exact .pure _
  | lookup found =>
    rw [node_lookup, node_lookup]
    exact .lift found
  | @hole b position scope subject c' absent excuse limit =>
    refine .excused excuse fun m => ?_
    rw [node_lookup, absent]
    rfl
  | literal => exact .pure _
  | immediate inner => exact .ready (demands _ _ inner)
  | defer inner => exact .suspend inner
  | functionDef input body =>
    exact .bind (evals _ _ input) fun slot => evals _ _ (body slot)
  | pipe left right => exact .bind (demands _ _ left) fun v => evals _ _ (right v)
  | equalTo left right =>
    rw [node_equalTo, node_equalTo]
    refine .bind (lawful.operands demands holes left) fun l => ?_
    refine .bind (lawful.operands demands holes right) fun r => ?_
    exact .bind (lawful.blameless (.equalTo _ l r)) fun b => .pure _
  | binaryMath left right =>
    rw [node_binaryMath, node_binaryMath]
    refine .bind (lawful.operands demands holes left) fun l => ?_
    refine .bind (lawful.operands demands holes right) fun r => ?_
    rw [lawful.binaryMath_eq]
    exact .ready (lawful.blameless (.binaryMath settings _ _ l r))
  | unaryMath inner =>
    rw [node_unaryMath, node_unaryMath]
    refine .bind (lawful.operands demands holes inner) fun v => ?_
    exact .ready (lawful.blameless (.unaryMath _ _ v))
  | binaryLogical left right =>
    rw [node_binaryLogical, node_binaryLogical]
    refine .bind (lawful.conditions demands _ left) fun l => ?_
    split
    · exact .pure _
    · exact .bind (lawful.conditions demands _ right) fun r => .pure _
  | not inner => exact .bind (lawful.conditions demands .not inner) fun b => .pure _
  | diverge chooser onTrue onFalse =>
    refine .bind (lawful.conditions demands .diverge chooser) fun choice => ?_
    cases choice with
    | true => exact .ready (demands _ _ onTrue)
    | false => exact .ready (demands _ _ onFalse)
  | tupleGetIndex tuple =>
    rw [node_tupleGetIndex, node_tupleGetIndex]
    refine .bind (demands _ _ tuple) fun v => ?_
    exact .ready (lawful.blameless (.select _ v))

end

/-- Alike closures are entered alike, unless the left one is a lookup
without a slot. -/
theorem entered {c c' : Closure} (depth : Nat) {x y : Run α}
    (closure : L.closure c c') (runs : L.Runs x y)
    (hole : ∀ b position scope subject, c = ⟨.lookup b, position, scope, subject⟩ →
      scope.lookup b = none → ∀ m, (x.on m).1 = .error (.unboundBinding b)) :
    L.Runs (Run.enter c depth >>= fun _ => x)
      (Run.enter c' depth >>= fun _ => y) := by
  have nodes := lawful.node closure
  cases nodes with
  | hole absent excuse =>
    refine .excused excuse fun m => ?_
    rw [on_bind, on_enter]
    exact hole _ _ _ _ rfl absent _
  | _ => exact .bind (.enter depth rfl rfl) fun _ => runs

omit lawful in
/-- The value of a lookup without a slot fails with an excuse, at whatever depth
it is demanded. -/
theorem demand_hole (budget depth : Nat) {b position scope subject} {y : Run Value}
    (absent : scope.lookup b = none) (excuse : L.excused (.unboundBinding b))
    (limit : L.excused (.depthLimitExceeded settings.maxDepth)) :
    L.Runs (Run.demand settings budget depth
      ⟨.lookup b, position, scope, subject⟩) y := by
  cases budget with
  | zero => exact .excused limit fun m => rfl
  | succ budget =>
    refine .excused excuse fun m => ?_
    show ((Run.enter _ depth >>= fun _ => _).on m).1 = _
    rw [on_bind, on_enter]
    exact failed_bind _ _ (node_lookup_absent _ _ _ _ _ _ absent _)

/-- Alike closures run alike when the right budget exceeds the left one by as
much as the limits differ. -/
theorem runs (budget : Nat) : ∀ (depth : Nat) {c c' : Closure}, L.closure c c' →
    L.Runs (Run.eval settings budget depth c)
      (Run.eval settings' (budget + (settings'.maxDepth - settings.maxDepth))
        depth c') ∧
    L.Runs (Run.demand settings budget depth c)
      (Run.demand settings' (budget + (settings'.maxDepth - settings.maxDepth))
        depth c') := by
  induction budget with
  | zero =>
    -- The left side is out of depth. That is excused, or the limits are equal
    -- and the right side is out of it too.
    intro depth c c' _
    rcases lawful.limit with excuse | ⟨equal, error⟩
    · exact ⟨.excused excuse fun m => rfl, .excused excuse fun m => rfl⟩
    · rw [equal, Nat.sub_self]
      constructor
      · intro m m' machines
        exact .error error machines.visits
      · intro m m' machines
        exact .error error machines.visits
  | succ budget ih =>
    intro depth c c' closure
    rw [Nat.add_right_comm]
    generalize settings'.maxDepth - settings.maxDepth = gap at ih
    have evals := fun c c' (closure : L.closure c c') => (ih (depth + 1) closure).1
    have demands :=
      fun c c' (closure : L.closure c c') => (ih (depth + 1) closure).2
    have nodes := lawful.nodes evals demands (demand_hole budget (depth + 1))
      (lawful.node closure)
    constructor
    · show L.Runs (Run.enter c depth >>= fun _ => _)
        (Run.enter c' depth >>= fun _ => _)
      refine lawful.entered depth closure nodes ?_
      rintro b position scope subject rfl absent m
      exact node_lookup_absent _ _ _ _ _ _ absent m
    · show L.Runs (Run.enter c depth >>= fun _ => _)
        (Run.enter c' depth >>= fun _ => _)
      refine lawful.entered depth closure (.bind nodes fun slot => ?_) ?_
      · cases slot with
        | ready v => exact .pure v
        | deferred number => exact .force number demands
      · rintro b position scope subject rfl absent m
        exact failed_bind _ _ (node_lookup_absent _ _ _ _ _ _ absent m)

end Lawful

/-- What two evaluations come to: alike results after the same nodes, or a left
result with an excuse. -/
inductive Evaluations : Evaluation → Evaluation → Prop
  | alike {e e'} : L.Outcomes e.result e'.result →
    e.machine.visits = e'.machine.visits →
    Evaluations e e'
  | excused {e e' error} : e.result = .error error → L.excused error →
    Evaluations e e'

namespace Evaluations

variable {L} {e e' : Evaluation}

/-- A left evaluation that fails has an excuse, or an error that stands for one
of the right evaluation. -/
theorem of_failed (evaluations : L.Evaluations e e') {error : EvaluationError}
    (failed : e.result = .error error) :
    L.excused error ∨ ∃ error', L.error error error' := by
  cases evaluations with
  | alike outcomes _ =>
    rw [failed] at outcomes
    generalize e'.result = right at outcomes
    cases outcomes with
    | error related => exact .inr ⟨_, related⟩
    | excused excuse => exact .inl excuse
  | excused result excuse =>
    rw [failed] at result
    cases result
    exact .inl excuse

/-- Where only equal errors stand for each other, the two evaluations come to
the same, unless the left one has an excuse. -/
theorem eq_or_excused (error : ∀ {e e'}, L.error e e' → e = e')
    (evaluations : L.Evaluations e e') :
    e.result = e'.result ∧ e.machine.visits = e'.machine.visits ∨
      ∃ error, e.result = .error error ∧ L.excused error := by
  cases evaluations with
  | alike outcomes visits =>
    generalize e.result = left at outcomes ⊢
    generalize e'.result = right at outcomes ⊢
    cases outcomes with
    | ok v => exact .inl ⟨rfl, visits⟩
    | error related => exact .inl ⟨congrArg Except.error (error related), visits⟩
    | excused excuse => exact .inr ⟨_, rfl, excuse⟩
  | excused failed excuse => exact .inr ⟨_, failed, excuse⟩

end Evaluations

theorem Lawful.evaluationUnder {L : Likeness} {settings settings' : Settings}
    (lawful : L.Lawful settings settings') {p q : Program}
    {context context' : Context} {subject subject' : Value}
    (closure : L.closure (p.closure context subject)
      (q.closure context' subject')) :
    L.Evaluations (p.evaluationUnder settings context subject)
      (q.evaluationUnder settings' context' subject') := by
  have budgets :
      settings.maxDepth + 1 + (settings'.maxDepth - settings.maxDepth) =
      settings'.maxDepth + 1 := by
    have := lawful.depth_le
    omega
  have ends := (lawful.runs (settings.maxDepth + 1) 0 closure).2 {} {}
    ⟨rfl, rfl, fun _ => .none⟩
  rw [budgets] at ends
  rw [Program.evaluationUnder_eq, Program.evaluationUnder_eq]
  generalize (Run.demand settings (settings.maxDepth + 1) 0
    (p.closure context subject)).on {} = left at ends
  generalize (Run.demand settings' (settings'.maxDepth + 1) 0
      (q.closure context' subject')).on {} = right
    at ends
  cases ends with
  | ok v machines => exact .alike (.ok v) machines.visits
  | error related visits => exact .alike (.error related) visits
  | excused excuse => exact .excused rfl excuse

/-- A closure's node is alike with itself when every closure stands for itself
and an unbound lookup may fail in both evaluations. -/
theorem Nodes.refl {L : Likeness} {settings : Settings}
    (closure : ∀ c, L.closure c c)
    (unbound : ∀ b, L.error (.unboundBinding b) (.unboundBinding b)) (c : Closure) :
    L.Nodes settings c c := by
  obtain ⟨program, position, scope, subject⟩ := c
  cases program with
  | identity => exact .identity
  | lookup b =>
    refine .lookup ?_
    cases scope.lookup b with
    | some slot => exact .ok slot
    | none => exact .error (unbound b)
  | literal v shape => exact .literal
  | immediate inner => exact .immediate (closure _)
  | defer inner => exact .defer (closure _)
  | functionDef b body input => exact .functionDef (closure _) fun slot => closure _
  | pipe left right => exact .pipe (closure _) fun v => closure _
  | equalTo tag left right => exact .equalTo (closure _) (closure _)
  | binaryMath op tag left right => exact .binaryMath (closure _) (closure _)
  | unaryMath op tag operand => exact .unaryMath (closure _)
  | binaryLogical op left right => exact .binaryLogical (closure _) (closure _)
  | not operand => exact .not (closure _)
  | diverge condition onTrue onFalse =>
    exact .diverge (closure _) (closure _) (closure _)
  | tupleGetIndex tuple index => exact .tupleGetIndex (closure _)

end Likeness

end FieldExpr
