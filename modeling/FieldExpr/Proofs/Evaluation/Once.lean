import FieldExpr.Proofs.Evaluation.Charge
import FieldExpr.Proofs.Lookup
import Mathlib.Data.List.Nodup
import Mathlib.Data.List.Perm.Subperm

/-!
# An evaluation walks its program once

However often what was deferred is looked up, an evaluation enters each node of the
program once at most (`evaluation_once`). So it enters no more nodes than there are,
nests less deep than there are nodes, and does not run out of depth where the limit
allows for all of them; and no cell is forced while it is being forced.
-/

namespace FieldExpr

open Run

/-! ## Nodes -/

namespace Region

variable {R : Region} {depth bound : Nat}

theorem Closures.slots_of_lookup {c : Closure} (inside : R.Closures bound c)
    {b : Binding} {slot : Slot} (found : c.scope.lookup b = some slot) :
    R.Slots bound slot :=
  inside.scope b slot (mem_of_lookup found)

/-- The body of a definition knows the slot of the input too. -/
theorem Closures.bind {c : Closure} (inside : R.Closures bound c) {b : Binding}
    {slot : Slot} (slots : R.Slots bound slot) :
    R.Closures bound { c with scope := (b, slot) :: c.scope } := by
  refine ⟨inside.node, fun b' slot' mem => ?_⟩
  rcases List.mem_cons.mp mem with same | mem
  · cases same
    exact slots
  · exact inside.scope b' slot' mem

namespace Runs

variable (settings : Settings) {eval eval' : Closure → Run Slot}
  {demand demand' : Closure → Run Value}
  (evals : ∀ {later c}, bound ≤ later → R.Closures later c →
    R.Runs depth later (share c.position) R.Slots (eval c) (eval' c))
  (demands : ∀ {later c}, bound ≤ later → R.Closures later c →
    R.Runs depth later (share c.position) Any (demand c) (demand' c))

include demands

theorem operand {later : Nat} {c : Closure} (le : bound ≤ later)
    (inside : R.Closures later c) :
    R.Runs depth later (share c.position) Any (Run.operand demand c)
      (Run.operand demand' c) := by
  obtain ⟨program, position, scope, subject⟩ := c
  cases program with
  | literal v shape =>
    rw [operand_literal, operand_literal]
    exact (blameless (.literal shape v)).mono fun _ => Nat.zero_le _
  | _ =>
    rw [operand_of_not_literal _ (by intro v s h; cases h),
      operand_of_not_literal _ (by intro v s h; cases h)]
    exact demands le inside

theorem condition (operator : Operator) {later : Nat} {c : Closure}
    (le : bound ≤ later) (inside : R.Closures later c) :
    R.Runs depth later (share c.position) Any (Run.condition demand operator c)
      (Run.condition demand' operator c) := by
  rw [condition_eq, condition_eq]
  exact bind (demands le inside) fun v _ _ _ => blameless (.condition operator v)

include evals

/-- A node costs no more than its children, each of them evaluated once. -/
theorem node {c : Closure} (inside : R.Closures bound c) :
    R.Runs depth bound (childShares c.position) R.Slots
      (Run.node settings eval demand c) (Run.node settings eval' demand' c) := by
  obtain ⟨program, position, scope, subject⟩ := c
  -- What a child knows is what the node knows, be it later.
  have child : ∀ {part later} number subject',
      program.children[number]? = some part → bound ≤ later →
      R.Closures later ⟨part, number :: position, scope, subject'⟩ :=
    fun _ subject' child le => (inside.child child subject').mono le
  cases program with
  | identity =>
    exact (pure (a := Slot.ready subject) fun _ _ => trivial).mono fun _ =>
      Nat.zero_le _
  | lookup b =>
    rw [node_lookup, node_lookup]
    cases found : scope.lookup b with
    | none =>
      refine (lift (fun slot same => ?_) fun limit same => ?_).mono fun _ =>
        Nat.zero_le _
      · cases same
      · cases same
    | some slot =>
      refine (lift (fun slot' same later le => ?_) fun limit same => ?_).mono
        fun _ => Nat.zero_le _
      · cases same
        exact (inside.slots_of_lookup found).mono le
      · cases same
  | literal v shape =>
    exact (pure (a := Slot.ready v) fun _ _ => trivial).mono fun _ => Nat.zero_le _
  | immediate inner =>
    have inner := demands (Nat.le_refl _) (child 0 subject rfl (Nat.le_refl _))
    exact inner.ready.mono (share_le_childShares position)
  | defer inner =>
    refine Runs.mono ?_ (share_le_childShares position)
    exact suspend (child 0 subject rfl (Nat.le_refl _))
  | functionDef b body input =>
    have input := evals (Nat.le_refl _) (child 0 subject rfl (Nat.le_refl _))
    refine (bind input fun slot later le slots => ?_).mono
      (shares_le_childShares position)
    exact evals le ((child 1 subject rfl le).bind slots)
  | pipe left right =>
    have left := demands (Nat.le_refl _) (child 0 subject rfl (Nat.le_refl _))
    refine (bind left fun v later le _ => ?_).mono (shares_le_childShares position)
    exact evals le (child 1 v rfl le)
  | equalTo tag left right =>
    rw [node_equalTo, node_equalTo]
    have left := operand demands (Nat.le_refl _)
      (child 0 subject rfl (Nat.le_refl _))
    refine (bind left fun l later le _ => ?_).mono (shares_le_childShares position)
    refine finish (operand demands le (child 1 subject rfl le)) fun r _ _ _ => ?_
    exact finish (blameless (.equalTo tag l r)) fun _ _ _ _ =>
      pure fun _ _ => trivial
  | binaryMath op tag left right =>
    rw [node_binaryMath, node_binaryMath]
    have left := operand demands (Nat.le_refl _)
      (child 0 subject rfl (Nat.le_refl _))
    refine (bind left fun l later le _ => ?_).mono (shares_le_childShares position)
    refine finish (operand demands le (child 1 subject rfl le)) fun r _ _ _ => ?_
    exact ready (blameless (.binaryMath settings op tag l r))
  | unaryMath op tag inner =>
    rw [node_unaryMath, node_unaryMath]
    have inner := operand demands (Nat.le_refl _)
      (child 0 subject rfl (Nat.le_refl _))
    refine (finish inner fun v _ _ _ => ?_).mono (share_le_childShares position)
    exact ready (blameless (.unaryMath op tag v))
  | binaryLogical op left right =>
    rw [node_binaryLogical, node_binaryLogical]
    have left := condition demands (Rule.connective op) (Nat.le_refl _)
      (child 0 subject rfl (Nat.le_refl _))
    refine (bind left fun l later le _ => ?_).mono (shares_le_childShares position)
    split
    · exact (pure fun _ _ => trivial).mono fun _ => Nat.zero_le _
    · have right :=
        condition demands (Rule.connective op) le (child 1 subject rfl le)
      exact finish right fun _ _ _ _ => pure fun _ _ => trivial
  | not inner =>
    have inner := condition demands .not (Nat.le_refl _)
      (child 0 subject rfl (Nat.le_refl _))
    refine Runs.mono ?_ (share_le_childShares position)
    exact finish inner fun _ _ _ _ => pure fun _ _ => trivial
  | diverge chooser onTrue onFalse =>
    have chooser :=
      condition demands .diverge (Nat.le_refl _)
        (child 0 subject rfl (Nat.le_refl _))
    have branches :
        ∀ q, share (0 :: position) q +
        (share (1 :: position) q + share (2 :: position) q) ≤
        childShares position q := fun q => Nat.le_of_eq (Nat.add_assoc ..).symm
    refine Runs.mono ?_ branches
    refine bind chooser fun choice later le _ => ?_
    cases choice with
    | true =>
      exact (demands le (child 1 subject rfl le)).ready.mono fun _ =>
        Nat.le_add_right _ _
    | false =>
      exact (demands le (child 2 subject rfl le)).ready.mono fun _ =>
        Nat.le_add_left _ _
  | tupleGetIndex tuple index =>
    rw [node_tupleGetIndex, node_tupleGetIndex]
    have tuple := demands (Nat.le_refl _) (child 0 subject rfl (Nat.le_refl _))
    refine (finish tuple fun v _ _ _ => ?_).mono (share_le_childShares position)
    exact ready (blameless (.select index v))

end Runs

end Region

/-! ## Watching the cells -/

namespace Run

mutual

/-- The slot of a closure, by an evaluator that knows which cells are being
forced. To force one of them again it would do `again`. -/
def evalWatched (again : Nat → Run Value) (settings : Settings) :
    (budget depth : Nat) → (forcing : List Nat) → Closure → Run Slot
  | 0, _, _, _ => throw (.depthLimitExceeded settings.maxDepth)
  | budget + 1, depth, forcing, c => do
    enter c depth
    node settings (evalWatched again settings budget (depth + 1) forcing)
      (demandWatched again settings budget (depth + 1) forcing) c

/-- The value of a closure, by the same evaluator. -/
def demandWatched (again : Nat → Run Value) (settings : Settings) :
    (budget depth : Nat) → (forcing : List Nat) → Closure → Run Value
  | 0, _, _, _ => throw (.depthLimitExceeded settings.maxDepth)
  | budget + 1, depth, forcing, c => do
    enter c depth
    let slot ← node settings (evalWatched again settings budget (depth + 1) forcing)
      (demandWatched again settings budget (depth + 1) forcing) c
    match slot with
    | .ready value => return value
    | .deferred number =>
      if number ∈ forcing then again number
      else force (demandWatched again settings budget (depth + 1)
        (number :: forcing)) number

end

end Run

/-- The evaluation of a program by an evaluator that does `again` when a cell is
forced while it is being forced. -/
def Program.evaluationWatched (again : Nat → Run Value) (config : EngineConfig)
    (p : Program) (context : Context) (subject : Value) : Evaluation :=
  let settings := Settings.ofConfig config context
  let (result, machine) :=
    (Run.demandWatched again settings (settings.maxDepth + 1) 0 []
      (p.closure context subject)).run {}
  ⟨result, machine⟩

/-- No region lets a run force a cell that is being forced, so watching makes
no difference; and a closure costs its share. The induction is on the budget,
over all regions. -/
theorem Region.runs_watched (again : Nat → Run Value) (settings : Settings)
    (budget : Nat) :
    ∀ {R : Region} {depth bound : Nat} {forcing : List Nat} {c : Closure},
      (∀ number ∈ forcing, ¬ R.reach number) → budget + depth = R.limit + 1 →
      R.Closures bound c →
      R.Runs depth bound (share c.position) R.Slots
          (Run.evalWatched again settings budget depth forcing c)
          (Run.eval settings budget depth c) ∧
        R.Runs depth bound (share c.position) Any
          (Run.demandWatched again settings budget depth forcing c)
          (Run.demand settings budget depth c) := by
  induction budget with
  | zero =>
    intro R depth bound forcing c _ deep inside
    have deep : depth = R.limit + 1 := by omega
    exact ⟨.limit inside deep _, .limit inside deep _⟩
  | succ budget ih =>
    intro R depth bound forcing c apart deep inside
    have deep : budget + (depth + 1) = R.limit + 1 := by omega
    have nodes := Runs.node settings (fun _ inside => (ih apart deep inside).1)
      (fun _ inside => (ih apart deep inside).2) inside
    refine ⟨.enter inside nodes,
      .enter inside (.finish nodes fun slot later _ slots => ?_)⟩
    cases slot with
    | ready v => exact .pure fun _ _ => trivial
    | deferred number =>
      have free : number ∉ forcing := fun mem => apart number mem slots.1
      show R.Runs _ _ _ _ (if number ∈ forcing then _ else _) _
      rw [if_neg free]
      refine .force slots.1 slots.2 fun size lt fresh c inside =>
        (ih (R := R.inner number size) (fun other mem => ?_) deep inside).2
      -- Neither the cell itself nor one that was being forced already is in the
      -- inner region.
      rcases List.mem_cons.mp mem with rfl | mem
      · exact not_reach_inner lt
      · rintro (⟨reach, _⟩ | le)
        · exact apart other mem reach
        · exact apart other mem (fresh other le)

/-! ## Evaluations -/

namespace Region

variable {R : Region} {α : Type} {cost : Program.Position → Nat}
  {good : Nat → α → Prop} {m : Machine} {ended : Except EvaluationError α × Machine}

theorem Ends.step (ends : R.Ends cost good m ended) : R.Step cost m ended.2 := by
  cases ends with
  | ok step _ _ _ => exact step
  | error step _ _ => exact step

theorem Ends.tidy (ends : R.Ends cost good m ended) : R.Tidy ended.2 := by
  cases ends with
  | ok _ tidy _ _ => exact tidy
  | error _ tidy _ => exact tidy

theorem Ends.short (ends : R.Ends cost good m ended) {limit : Nat}
    (failed : ended.1 = .error (.depthLimitExceeded limit)) :
    R.Short cost m ended.2 := by
  cases ends with
  | ok _ _ _ _ => cases failed
  | error _ _ short => exact short limit (Except.error.inj failed)

end Region

namespace Machine

/-- The positions that have been entered, in order. -/
def positions (m : Machine) : List Program.Position :=
  m.visits.toList.map Visit.position

theorem length_positions (m : Machine) : m.positions.length = m.visits.size := by
  rw [positions, List.length_map, Array.length_toList]

theorem count_positions_le (m : Machine) (q : Program.Position) :
    m.positions.count q ≤ m.charge q :=
  Nat.le_add_right _ _

end Machine

namespace Program

/-- A program has room for as many distinct positions as it has nodes. -/
theorem length_le_nodeCount {p : Program} {positions : List Position}
    (distinct : positions.Nodup)
    (nodes : ∀ q ∈ positions, ∃ node ∈ p.nodes [], node.1 = q) :
    positions.length ≤ p.nodeCount := by
  have subset : positions ⊆ (p.nodes []).map Prod.fst :=
    fun q mem => List.mem_map.mpr (nodes q mem)
  calc positions.length
    _ ≤ ((p.nodes []).map Prod.fst).length := (distinct.subperm subset).length_le
    _ = p.nodeCount := by rw [List.length_map, p.length_nodes]

/-- The region of a whole evaluation: there is no cell yet. -/
def region (p : Program) (limit : Nat) : Region :=
  ⟨p, limit, fun _ => True⟩

/-- An evaluation costs one entry into each node, and watching it makes
no difference. -/
theorem runs_closure (again : Nat → Run Value) (settings : Settings)
    (p : Program) (context : Context) (subject : Value) :
    (p.region settings.maxDepth).Runs 0 0 (share []) Region.Any
      (Run.demandWatched again settings (settings.maxDepth + 1) 0 []
        (p.closure context subject))
      (Run.demand settings (settings.maxDepth + 1) 0
        (p.closure context subject)) := by
  have inside : (p.region settings.maxDepth).Closures 0
      (p.closure context subject) := by
    refine ⟨?_, fun b slot mem => ?_⟩
    · show (_, p) ∈ p.nodes []
      rw [p.nodes_eq]
      exact List.mem_cons_self
    · obtain ⟨entry, _, same⟩ := List.mem_map.mp mem
      cases same
      trivial
  have free : ∀ number ∈ ([] : List Nat),
      ¬ (p.region settings.maxDepth).reach number := by
    intro number mem
    cases mem
  exact (Region.runs_watched again settings (settings.maxDepth + 1) free
    rfl inside).2

/-- A watched evaluation is an evaluation, and it ends as the runs of
its region do. -/
theorem ends_evaluation (again : Nat → Run Value) (config : EngineConfig)
    (p : Program) (context : Context) (subject : Value) :
    p.evaluationWatched again config context subject =
      p.evaluation config context subject ∧
      (p.region config.maxDepth.toNat).Ends (share []) Region.Any {}
        ((p.evaluation config context subject).result,
          (p.evaluation config context subject).machine) := by
  have tidy : (p.region config.maxDepth.toNat).Tidy {} :=
    ⟨fun i v found => by simp at found, fun i cell found => by simp at found,
      fun _ _ => trivial⟩
  have values : (p.region config.maxDepth.toNat).Values {} :=
    fun i cell outcome found => by simp at found
  obtain ⟨same, ends⟩ :=
    p.runs_closure again (Settings.ofConfig config context) context subject
      {} tidy values
    (Nat.zero_le _) (Nat.zero_le _)
  exact ⟨congrArg (fun ended => Evaluation.mk ended.1 ended.2) same, ends⟩

section

variable {p : Program} {limit : Nat}
  {ended : Except EvaluationError Value × Machine}
  (ends : (p.region limit).Ends (share []) Region.Any {} ended)

include ends

theorem charge_le_share (q : Position) : ended.2.charge q ≤ share [] q := by
  have le : ended.2.charge q ≤ 0 + share [] q := ends.step.charge q
  omega

theorem nodup_positions : ended.2.positions.Nodup := by
  refine List.nodup_iff_count_le_one.mpr fun q => ?_
  have counted := ended.2.count_positions_le q
  have charged := charge_le_share ends q
  have shared := share_le_one [] q
  omega

theorem visit_spec (v : Visit) (mem : v ∈ ended.2.visits.toList) :
    v.depth < ended.2.visits.size ∧ ∃ node ∈ p.nodes [], node.1 = v.position ∧
    node.2.kind = v.kind := by
  obtain ⟨i, lt, same⟩ := Array.mem_iff_getElem.mp (Array.mem_def.mpr mem)
  obtain ⟨le, node⟩ :=
    ends.tidy.visits i v (Array.getElem?_eq_some_iff.mpr ⟨lt, same⟩)
  exact ⟨Nat.lt_of_le_of_lt le lt, node⟩

theorem node_of_mem_positions (q : Position) (mem : q ∈ ended.2.positions) :
    ∃ node ∈ p.nodes [], node.1 = q := by
  obtain ⟨v, visit, rfl⟩ := List.mem_map.mp mem
  obtain ⟨_, node, mem, same, _⟩ := visit_spec ends v visit
  exact ⟨node, mem, same⟩

theorem size_visits_le : ended.2.visits.size ≤ p.nodeCount := by
  rw [← ended.2.length_positions]
  exact length_le_nodeCount (nodup_positions ends) (node_of_mem_positions ends)

/-- Where the limit is exceeded, the node that could not be entered is one more
than those that were. -/
theorem limit_lt_of_exceeded {exceeded : Nat}
    (failed : ended.1 = .error (.depthLimitExceeded exceeded)) :
    limit + 1 < p.nodeCount := by
  obtain ⟨deep, node, mem, spare⟩ := ends.short failed
  have deep : limit < ended.2.visits.size := deep
  have mem : node ∈ p.nodes [] := mem
  have spare : ended.2.charge node.1 < 0 + share [] node.1 := spare
  have unentered : ended.2.positions.count node.1 = 0 := by
    have counted := ended.2.count_positions_le node.1
    have shared := share_le_one [] node.1
    omega
  have distinct : (node.1 :: ended.2.positions).Nodup :=
    List.nodup_cons.mpr ⟨List.count_eq_zero.mp unentered, nodup_positions ends⟩
  have room := length_le_nodeCount distinct fun q among => by
    rcases List.mem_cons.mp among with rfl | among
    · exact ⟨node, mem, rfl⟩
    · exact node_of_mem_positions ends q among
  rw [List.length_cons, ended.2.length_positions] at room
  omega

end

/-- Every node of a program is entered once at most in a whole evaluation,
whatever is deferred and however often it is looked up. So no more nodes are
entered than there are, none of them deeper than there are others, and a limit
that allows for all of them is not exceeded; and an evaluator that does
something else when a cell is forced while it is being forced never does so. -/
theorem evaluation_once (config : EngineConfig) (p : Program)
    (context : Context) (subject : Value) :
    (p.evaluation config context subject).machine.positions.Nodup ∧
      (∀ v ∈ (p.evaluation config context subject).machine.visits.toList,
        v.depth ≤ p.nodeCount - 1 ∧ ∃ node ∈ p.nodes [], node.1 = v.position ∧
        node.2.kind = v.kind) ∧
      (p.evaluation config context subject).machine.visits.size ≤ p.nodeCount ∧
      (∀ again, p.evaluationWatched again config context subject =
        p.evaluation config context subject) ∧
      (p.nodeCount ≤ config.maxDepth.toNat + 1 → ∀ limit,
        (p.evaluation config context subject).result ≠
          .error (.depthLimitExceeded limit)) := by
  have watched := fun again => (p.ends_evaluation again config context subject).1
  have ends := (p.ends_evaluation (fun _ => pure .unit) config context subject).2
  have size := size_visits_le ends
  refine ⟨nodup_positions ends, fun v mem => ?_, size, watched,
    fun enough limit failed => ?_⟩
  · obtain ⟨lt, node⟩ := visit_spec ends v mem
    exact ⟨by omega, node⟩
  · exact absurd (limit_lt_of_exceeded ends failed) (Nat.not_lt.mpr enough)

/-- A deferred sum that is looked up twice. -/
def readTwice : Program :=
  .functionDef ⟨0⟩ (.binaryMath .add .integer (.lookup ⟨0⟩) (.lookup ⟨0⟩))
    (.defer (.binaryMath .multiply .integer .identity .identity))

/-- Its eight nodes are within a limit of seven, and the sum is computed once. -/
theorem evaluation_readTwice :
    (readTwice.evaluation ⟨7, none, true⟩ {} (.integer 3)).machine.positions.Nodup ∧
      ∀ limit, (readTwice.evaluation ⟨7, none, true⟩ {} (.integer 3)).result ≠
        .error (.depthLimitExceeded limit) := by
  obtain ⟨distinct, _, _, _, enough⟩ :=
    readTwice.evaluation_once ⟨7, none, true⟩ {} (.integer 3)
  exact ⟨distinct, enough (by decide)⟩

end Program

end FieldExpr
