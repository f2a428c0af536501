import FieldExpr.Proofs.Evaluation.Rule
import FieldExpr.Proofs.Program.Nodes

/-!
# What an evaluation has entered and may enter yet

A position is charged once for each time that its node has been entered, and
once for each cell without an outcome that was deferred at the node or above it.
Evaluating a part of the program adds at most one to the charge of the positions
in the part (`share`): a node is entered once and hands the rest to its
children, a deferred part is charged to its cell, and forcing the cell takes the
charge back before it is spent. So no position is ever charged twice.

A `Region` says which cells a run may force. A deferred closure knows older
cells only, so what it is forced in has no cell that is being forced already
(`inner`). Runs are compared in pairs, one of an evaluator that would notice
when a cell is forced again, so both come to the same.
-/

namespace FieldExpr

open Program (Position)

namespace Run

/-- One for the positions in the part of a program at a position, and
nothing for others. -/
def share (position q : Position) : Nat :=
  if position <:+ q then 1 else 0

theorem share_of_suffix {position q : Position} (inside : position <:+ q) :
    share position q = 1 :=
  if_pos inside

theorem share_of_not_suffix {position q : Position}
    (outside : ¬ position <:+ q) : share position q = 0 :=
  if_neg outside

theorem share_self (q : Position) : share q q = 1 :=
  share_of_suffix (List.suffix_refl q)

theorem share_le_one (position q : Position) : share position q ≤ 1 := by
  unfold share
  split <;> omega

/-- What a node may hand to its children. -/
def childShares (position q : Position) : Nat :=
  share (0 :: position) q + share (1 :: position) q + share (2 :: position) q

theorem share_le_childShares (position q : Position) :
    share (0 :: position) q ≤ childShares position q := by
  unfold childShares
  omega

theorem shares_le_childShares (position q : Position) :
    share (0 :: position) q + share (1 :: position) q ≤ childShares position q := by
  unfold childShares
  omega

/-- No position is in two children. -/
theorem share_add_share_le_one (position q : Position) {i k : Nat}
    (different : i ≠ k) :
    share (i :: position) q + share (k :: position) q ≤ 1 := by
  have le := share_le_one (i :: position) q
  have le' := share_le_one (k :: position) q
  by_cases below : i :: position <:+ q
  · have outside : ¬ k :: position <:+ q := by
      intro below'
      exact different (Program.number_eq_of_suffix below below')
    rw [share_of_not_suffix outside]
    omega
  · rw [share_of_not_suffix below]
    omega

/-- A share covers one entry into its node and the shares of the children. -/
theorem entry_add_childShares_le (position q : Position) :
    (if position = q then 1 else 0) + childShares position q ≤
      share position q := by
  unfold childShares
  by_cases here : position <:+ q
  · rw [share_of_suffix here]
    split
    · -- The node itself is in none of its children.
      rename_i same
      subst same
      have outside : ∀ k, share (k :: position) position = 0 :=
        fun k => share_of_not_suffix fun below => by
        have le := below.length_le
        rw [List.length_cons] at le
        omega
      have zero := outside 0
      have one := outside 1
      have two := outside 2
      omega
    · have first := share_add_share_le_one position q (i := 0) (k := 1) (by decide)
      have second := share_add_share_le_one position q (i := 1) (k := 2) (by decide)
      have third := share_add_share_le_one position q (i := 0) (k := 2) (by decide)
      omega
  · have outside : ∀ k, share (k :: position) q = 0 := fun k =>
      share_of_not_suffix fun below =>
        here ((List.suffix_cons k position).trans below)
    have other : position ≠ q := fun same => here (same ▸ List.suffix_refl q)
    have zero := outside 0
    have one := outside 1
    have two := outside 2
    rw [if_neg other]
    omega

end Run

open Run

/-! ## Charges -/

/-- What a cell may still enter. -/
def Cell.charge (cell : Cell) (q : Position) : Nat :=
  match cell.outcome with
  | none => share cell.closure.position q
  | some _ => 0

/-- How often a position has been entered or may yet be, by way of the cells. -/
def Machine.charge (m : Machine) (q : Position) : Nat :=
  (m.visits.toList.map Visit.position).count q +
    (m.cells.toList.map (Cell.charge · q)).sum

/-- Changing one element changes a sum by the difference. -/
theorem sum_map_modify {α : Type} (f : α → α) (g : α → Nat) {items : List α} :
    ∀ {n : Nat} {a : α}, items[n]? = some a →
    ((items.modify n f).map g).sum + g a = (items.map g).sum + g (f a) := by
  induction items with
  | nil => intro n a found; cases found
  | cons b rest ih =>
    intro n a found
    cases n with
    | zero =>
      cases found
      simp only [List.modify_zero_cons, List.map_cons, List.sum_cons]
      omega
    | succ n =>
      have same := ih (n := n) found
      simp only [List.modify_succ_cons, List.map_cons, List.sum_cons]
      omega

namespace Machine

variable {m : Machine} {q : Position}

theorem charge_enter (c : Closure) (depth : Nat) :
    Machine.charge
      { m with visits := m.visits.push ⟨c.position, c.program.kind, depth⟩ } q =
      m.charge q + if c.position = q then 1 else 0 := by
  simp only [charge, Array.toList_push, List.map_append, List.count_append,
    List.map_cons, List.map_nil, List.count_singleton, beq_iff_eq]
  omega

theorem charge_suspend (c : Closure) :
    Machine.charge { m with cells := m.cells.push ⟨c, none⟩ } q =
      m.charge q + share c.position q := by
  simp only [charge, Array.toList_push, List.map_append, List.sum_append,
    List.map_cons, List.map_nil, List.sum_cons, List.sum_nil, Cell.charge]
  omega

/-- A cell that gets an outcome gives up its charge. -/
theorem charge_remember {n : Nat} {cell : Cell}
    (found : m.cells[n]? = some cell) (unknown : cell.outcome = none)
    (outcome : Except EvaluationError Value) :
    (remember m n outcome).charge q + share cell.closure.position q =
      m.charge q := by
  have found : m.cells.toList[n]? = some cell := by rwa [Array.getElem?_toList]
  have sum := sum_map_modify (fun cell => { cell with outcome := some outcome })
    (Cell.charge · q) found
  have own : cell.charge q = share cell.closure.position q := by
    rw [Cell.charge, unknown]
  have rest : Cell.charge { cell with outcome := some outcome } q = 0 := rfl
  simp only [own, rest] at sum
  simp only [charge, remember, Array.toList_modify]
  omega

end Machine

/-! ## Regions -/

/-- Where a run stands. -/
structure Region where
  /-- The whole program. -/
  root : Program
  /-- The deepest nesting. -/
  limit : Nat
  /-- The cells that may be forced here, and those that are yet to be made. -/
  reach : Nat → Prop

namespace Region

variable (R : Region)

/-- Slots that may be forced here. -/
def Slots (bound : Nat) : Slot → Prop
  | .ready _ => True
  | .deferred number => R.reach number ∧ number < bound

/-- Closures of nodes that may be entered here. -/
structure Closures (bound : Nat) (c : Closure) : Prop where
  node : (c.position, c.program) ∈ R.root.nodes []
  scope : ∀ b slot, (b, slot) ∈ c.scope → R.Slots bound slot

/-- Machines whose visits are of nodes, each no deeper than there are visits
before it, and whose cells know older cells of the region only. -/
structure Tidy (m : Machine) : Prop where
  visits : ∀ (i : Nat) (v : Visit), m.visits[i]? = some v →
    v.depth ≤ i ∧ ∃ node ∈ R.root.nodes [], node.1 = v.position ∧
    node.2.kind = v.kind
  cells : ∀ (i : Nat) (cell : Cell), m.cells[i]? = some cell → R.reach i →
    R.Closures i cell.closure
  fresh : ∀ i, m.cells.size ≤ i → R.reach i

/-- Cells that remember an outcome remember a value: an evaluation ends with
its first error. -/
def Values (m : Machine) : Prop :=
  ∀ (i : Nat) (cell : Cell) outcome, m.cells[i]? = some cell → R.reach i →
    cell.outcome = some outcome →
    ∃ v, outcome = .ok v

/-- What a run changes: cells outside of the region stay as they are, and each
position is charged at most its cost. -/
structure Step (cost : Position → Nat) (m m' : Machine) : Prop where
  visits : m.visits.size ≤ m'.visits.size
  cells : m.cells.size ≤ m'.cells.size
  outside : ∀ i, ¬ R.reach i → m'.cells[i]? = m.cells[i]?
  charge : ∀ q, m'.charge q ≤ m.charge q + cost q

/-- Errors of nodes that could not be entered for want of depth, from a machine
on: more nodes than the limit have been entered, and one could still have been. -/
def Short (cost : Position → Nat) (m m' : Machine) : Prop :=
  R.limit < m'.visits.size ∧ ∃ node ∈ R.root.nodes [],
    m'.charge node.1 < m.charge node.1 + cost node.1

/-- What a run from a machine comes to. -/
inductive Ends {α : Type} (cost : Position → Nat) (good : Nat → α → Prop)
    (m : Machine) :
    Except EvaluationError α × Machine → Prop
  | ok {a m'} : R.Step cost m m' → R.Tidy m' → R.Values m' →
    good m'.cells.size a → Ends cost good m (.ok a, m')
  | error {e m'} : R.Step cost m m' → R.Tidy m' →
    (∀ limit, e = .depthLimitExceeded limit → R.Short cost m m') →
    Ends cost good m (.error e, m')

/-- Two runs that come to the same, from machines with so many visits and
cells at least. -/
def Runs {α : Type} (depth bound : Nat) (cost : Position → Nat)
    (good : Nat → α → Prop) (x y : Run α) : Prop :=
  ∀ m, R.Tidy m → R.Values m → depth ≤ m.visits.size → bound ≤ m.cells.size →
    x.on m = y.on m ∧ R.Ends cost good m (y.on m)

/-- Any value. -/
def Any {α : Type} (_ : Nat) (_ : α) : Prop := True

variable {R} {α β : Type} {cost cost' : Position → Nat} {m m' m'' : Machine}
    {depth bound : Nat}

theorem Slots.mono {slot : Slot} {later : Nat} (inside : R.Slots bound slot)
    (le : bound ≤ later) :
    R.Slots later slot := by
  cases slot with
  | ready v => trivial
  | deferred number => exact ⟨inside.1, Nat.lt_of_lt_of_le inside.2 le⟩

theorem Closures.mono {c : Closure} {later : Nat} (inside : R.Closures bound c)
    (le : bound ≤ later) :
    R.Closures later c :=
  ⟨inside.node, fun b slot mem => (inside.scope b slot mem).mono le⟩

/-- A part of a closure stands at a child, with what the closure knows. -/
theorem Closures.child {c : Closure} (inside : R.Closures bound c)
    {number : Nat} {part : Program}
    (child : c.program.children[number]? = some part) (subject : Value) :
    R.Closures bound ⟨part, number :: c.position, c.scope, subject⟩ :=
  ⟨Program.child_mem_nodes child inside.node, inside.scope⟩

theorem Step.refl (m : Machine) : R.Step (fun _ => 0) m m :=
  ⟨Nat.le_refl _, Nat.le_refl _, fun _ _ => rfl, fun _ => Nat.le_refl _⟩

theorem Step.trans (first : R.Step cost m m') (second : R.Step cost' m' m'') :
    R.Step (fun q => cost q + cost' q) m m'' where
  visits := Nat.le_trans first.visits second.visits
  cells := Nat.le_trans first.cells second.cells
  outside i out := (second.outside i out).trans (first.outside i out)
  charge q := by
    have one := first.charge q
    have two := second.charge q
    omega

theorem Step.mono (step : R.Step cost m m') (le : ∀ q, cost q ≤ cost' q) :
    R.Step cost' m m' :=
  { step with
    charge := fun q =>
      Nat.le_trans (step.charge q) (Nat.add_le_add_left (le q) _) }

theorem Short.mono (short : R.Short cost m m') (le : ∀ q, cost q ≤ cost' q) :
    R.Short cost' m m' := by
  obtain ⟨deep, node, mem, lt⟩ := short
  exact ⟨deep, node, mem, Nat.lt_of_lt_of_le lt (Nat.add_le_add_left (le _) _)⟩

theorem Short.after (step : R.Step cost m m') (short : R.Short cost' m' m'') :
    R.Short (fun q => cost q + cost' q) m m'' := by
  obtain ⟨deep, node, mem, lt⟩ := short
  refine ⟨deep, node, mem, ?_⟩
  have le := step.charge node.1
  show _ < m.charge node.1 + (cost node.1 + cost' node.1)
  omega

section

variable {good : Nat → α → Prop} {ended : Except EvaluationError α × Machine}

theorem Ends.mono (ends : R.Ends cost good m ended)
    (le : ∀ q, cost q ≤ cost' q) : R.Ends cost' good m ended := by
  cases ends with
  | ok step tidy values h => exact .ok (step.mono le) tidy values h
  | error step tidy short =>
    exact .error (step.mono le) tidy fun limit same => (short limit same).mono le

/-- What comes after a step ends with what both cost. -/
theorem Ends.after (step : R.Step cost m m') (ends : R.Ends cost' good m' ended) :
    R.Ends (fun q => cost q + cost' q) good m ended := by
  cases ends with
  | ok step' tidy values h => exact .ok (step.trans step') tidy values h
  | error step' tidy short =>
    exact .error (step.trans step') tidy fun limit same =>
      (short limit same).after step

end

/-! ## Entries and new cells -/

theorem Tidy.enter {c : Closure} (tidy : R.Tidy m) (inside : R.Closures bound c)
    (deep : depth ≤ m.visits.size) :
    R.Tidy { m with visits := m.visits.push ⟨c.position, c.program.kind,
      depth⟩ } := by
  refine ⟨fun i v found => ?_, tidy.cells, tidy.fresh⟩
  rw [Array.getElem?_push] at found
  split at found
  · rename_i last
    cases found
    exact ⟨last ▸ deep, _, inside.node, rfl, rfl⟩
  · exact tidy.visits i v found

theorem Step.enter (c : Closure) (depth : Nat) :
    R.Step (fun q => if c.position = q then 1 else 0) m
    { m with visits := m.visits.push ⟨c.position, c.program.kind, depth⟩ } :=
  ⟨by simp, Nat.le_refl _, fun _ _ => rfl,
    fun _ => Nat.le_of_eq (Machine.charge_enter c depth)⟩

/-- A cell is the last one or was there before. -/
theorem last_or_old {c : Closure} {i : Nat} {cell : Cell}
    (found : (m.cells.push ⟨c, none⟩)[i]? = some cell) :
    i = m.cells.size ∧ cell = ⟨c, none⟩ ∨ m.cells[i]? = some cell := by
  rw [Array.getElem?_push] at found
  split at found
  · rename_i last
    cases found
    exact .inl ⟨last, rfl⟩
  · exact .inr found

theorem Tidy.push {c : Closure} (tidy : R.Tidy m) (inside : R.Closures bound c)
    (bounded : bound ≤ m.cells.size) :
    R.Tidy { m with cells := m.cells.push ⟨c, none⟩ } := by
  refine ⟨tidy.visits, fun i cell found reach => ?_,
    fun i le => tidy.fresh i (Nat.le_trans ?_ le)⟩
  · rcases last_or_old found with ⟨rfl, rfl⟩ | found
    · exact inside.mono bounded
    · exact tidy.cells i cell found reach
  · simp

theorem Values.push (values : R.Values m) (c : Closure) :
    R.Values { m with cells := m.cells.push ⟨c, none⟩ } := by
  intro i cell outcome found reach known
  rcases last_or_old found with ⟨rfl, rfl⟩ | found
  · cases known
  · exact values i cell outcome found reach known

theorem Step.push (tidy : R.Tidy m) (c : Closure) :
    R.Step (share c.position) m { m with cells := m.cells.push ⟨c, none⟩ } := by
  refine ⟨Nat.le_refl _, by simp, fun i out => ?_,
    fun q => Nat.le_of_eq (Machine.charge_suspend c)⟩
  -- New cells are in every region.
  have old : ¬ i = m.cells.size :=
    fun last => out (tidy.fresh i (Nat.le_of_eq last.symm))
  rw [Array.getElem?_push, if_neg old]

/-! ## Rules of runs -/

namespace Runs

theorem mono {good : Nat → α → Prop} {x y : Run α}
    (runs : R.Runs depth bound cost good x y) (le : ∀ q, cost q ≤ cost' q) :
    R.Runs depth bound cost' good x y := by
  intro m tidy values deep bounded
  obtain ⟨same, ends⟩ := runs m tidy values deep bounded
  exact ⟨same, ends.mono le⟩

theorem bind {good : Nat → α → Prop} {good' : Nat → β → Prop} {x y : Run α}
    {f g : α → Run β} (first : R.Runs depth bound cost good x y)
    (next : ∀ a later, bound ≤ later → good later a →
      R.Runs depth later cost' good' (f a) (g a)) :
    R.Runs depth bound (fun q => cost q + cost' q) good' (x >>= f) (y >>= g) := by
  intro m tidy values deep bounded
  obtain ⟨same, ends⟩ := first m tidy values deep bounded
  rw [on_bind, on_bind, same]
  generalize y.on m = ended at ends
  cases ends with
  | ok step tidy values h =>
    obtain ⟨same, ends⟩ :=
      next _ _ (Nat.le_trans bounded step.cells) h _ tidy values
      (Nat.le_trans deep step.visits) (Nat.le_refl _)
    exact ⟨same, ends.after step⟩
  | error step tidy short =>
    have le : ∀ q, cost q ≤ cost q + cost' q := fun q => Nat.le_add_right _ _
    exact ⟨rfl, .error (step.mono le) tidy fun limit same =>
      (short limit same).mono le⟩

/-- What follows a run may cost nothing. -/
theorem finish {good : Nat → α → Prop} {good' : Nat → β → Prop} {x y : Run α}
    {f g : α → Run β} (first : R.Runs depth bound cost good x y)
    (next : ∀ a later, bound ≤ later → good later a →
      R.Runs depth later (fun _ => 0) good' (f a) (g a)) :
    R.Runs depth bound cost good' (x >>= f) (y >>= g) :=
  bind first next

/-- A result that is known already costs nothing. -/
theorem lift {good : Nat → α → Prop} {x : Except EvaluationError α}
    (h : ∀ a, x = .ok a → ∀ later, bound ≤ later → good later a)
    (limitless : ∀ limit, x ≠ .error (.depthLimitExceeded limit)) :
    R.Runs depth bound (fun _ => 0) good (Run.lift x) (Run.lift x) := by
  intro m tidy values _ bounded
  rw [on_lift]
  refine ⟨rfl, ?_⟩
  cases x with
  | ok a => exact .ok (.refl m) tidy values (h a rfl _ bounded)
  | error e =>
    refine .error (.refl m) tidy fun limit same => ?_
    exact absurd (congrArg Except.error same) (limitless limit)

theorem pure {good : Nat → α → Prop} {a : α}
    (h : ∀ later, bound ≤ later → good later a) :
    R.Runs depth bound (fun _ => 0) good (Pure.pure a) (Pure.pure a) := by
  refine lift (fun b same => ?_) nofun
  cases same
  exact h

/-- A rule of a strict node neither needs depth nor gives cells. -/
theorem blameless {x : Except EvaluationError α} (blameless : Rule.Blameless x) :
    R.Runs depth bound (fun _ => 0) Any (Run.lift x) (Run.lift x) := by
  refine lift (fun _ _ _ _ => trivial) fun limit same => ?_
  cases blameless _ same

/-- Values that are given as slots. -/
theorem ready {x y : Run Value} (values : R.Runs depth bound cost Any x y) :
    R.Runs depth bound cost R.Slots (do return .ready (← x))
      (do return .ready (← y)) :=
  finish values fun _ _ _ _ => pure fun _ _ => trivial

/-- Entering a node takes one of its charges, and the rest is left to
its children. -/
theorem enter {good : Nat → α → Prop} {c : Closure} {x y : Run α}
    (inside : R.Closures bound c)
    (rest : R.Runs (depth + 1) bound (childShares c.position) good x y) :
    R.Runs depth bound (share c.position) good (do Run.enter c depth; x)
      (do Run.enter c depth; y) := by
  intro m tidy values deep bounded
  rw [on_bind, on_bind, on_enter]
  dsimp only
  obtain ⟨same, ends⟩ :=
    rest _ (tidy.enter inside deep) values (by simp [deep]) bounded
  exact ⟨same, (ends.after (.enter c depth)).mono
    (entry_add_childShares_le c.position)⟩

/-- A node that cannot be entered is charged nothing, though it could have been. -/
theorem limit {good : Nat → α → Prop} {c : Closure}
    (inside : R.Closures bound c) (deep : depth = R.limit + 1) (limit : Nat) :
    R.Runs depth bound (share c.position) good (throw (.depthLimitExceeded limit))
      (throw (.depthLimitExceeded limit)) := by
  intro m tidy values nested _
  have step : R.Step (share c.position) m m :=
    (Step.refl m).mono fun q => Nat.zero_le _
  refine ⟨rfl, .error step tidy fun _ _ => ⟨by omega, _, inside.node, ?_⟩⟩
  rw [share_self]
  exact Nat.lt_succ_self _

/-- A deferred part is charged to its cell. -/
theorem suspend {c : Closure} (inside : R.Closures bound c) :
    R.Runs depth bound (share c.position) R.Slots (Run.suspend c)
      (Run.suspend c) := by
  intro m tidy values _ bounded
  rw [on_suspend]
  exact ⟨rfl, .ok (.push tidy c) (tidy.push inside bounded) (values.push c)
    ⟨tidy.fresh _ (Nat.le_refl _), by simp⟩⟩

end Runs

/-! ## Forcing -/

/-- The region in which a cell is forced: the older cells of the region, and
those that are made from then on. -/
def inner (R : Region) (number size : Nat) : Region :=
  { R with reach := fun i => R.reach i ∧ i < number ∨ size ≤ i }

theorem Slots.inner {slot : Slot} {number size : Nat}
    (inside : R.Slots number slot) (lt : number < size) :
    (R.inner number size).Slots size slot := by
  cases slot with
  | ready v => trivial
  | deferred other => exact ⟨.inl inside, Nat.lt_trans inside.2 lt⟩

/-- What may be forced in the inner region may be forced in the region. -/
theorem reach_of_inner {number i : Nat} (tidy : R.Tidy m)
    (reach : (R.inner number m.cells.size).reach i) :
    R.reach i := by
  rcases reach with ⟨inside, _⟩ | new
  · exact inside
  · exact tidy.fresh i new

/-- A cell is not in its own inner region. -/
theorem not_reach_inner {number size : Nat} (lt : number < size) :
    ¬ (R.inner number size).reach number := by
  rintro (⟨_, lt⟩ | le) <;> omega

theorem Closures.of_inner {c : Closure} {number : Nat} (tidy : R.Tidy m)
    (inside : (R.inner number m.cells.size).Closures bound c) :
    R.Closures bound c := by
  refine ⟨inside.node, fun b slot mem => ?_⟩
  have slots := inside.scope b slot mem
  cases slot with
  | ready v => trivial
  | deferred other => exact ⟨reach_of_inner tidy slots.1, slots.2⟩

theorem Tidy.inner (number : Nat) (tidy : R.Tidy m) :
    (R.inner number m.cells.size).Tidy m := by
  refine ⟨tidy.visits, fun i cell found reach => ?_, fun i le => .inr le⟩
  have older : R.reach i ∧ i < number := by
    rcases reach with older | new
    · exact older
    · have := (Array.getElem?_eq_some_iff.mp found).1
      omega
  have closures := tidy.cells i cell found older.1
  refine ⟨closures.node, fun b slot mem => ?_⟩
  have slots := closures.scope b slot mem
  cases slot with
  | ready v => trivial
  | deferred other => exact ⟨.inl ⟨slots.1, Nat.lt_trans slots.2 older.2⟩, slots.2⟩

/-- A cell that remembers the outcome of its inner region is one of the
region again. -/
theorem Tidy.remember {number : Nat} (tidy : R.Tidy m)
    (step : (R.inner number m.cells.size).Step cost m m')
    (tidy' : (R.inner number m.cells.size).Tidy m')
    (outcome : Except EvaluationError Value) :
    R.Tidy (Run.remember m' number outcome) := by
  have cells : ∀ (i : Nat) (cell : Cell), m'.cells[i]? = some cell → R.reach i →
      R.Closures i cell.closure := by
    intro i cell found reach
    by_cases inner : (R.inner number m.cells.size).reach i
    · exact (tidy'.cells i cell found inner).of_inner tidy
    · rw [step.outside i inner] at found
      exact tidy.cells i cell found reach
  refine ⟨tidy'.visits, fun i cell found reach => ?_,
    fun i le => tidy.fresh i (Nat.le_trans step.cells ?_)⟩
  · simp only [Run.remember, Array.getElem?_modify] at found
    split at found
    · obtain ⟨old, stored, rfl⟩ := Option.map_eq_some_iff.mp found
      exact cells i old stored reach
    · exact cells i cell found reach
  · simpa [Run.remember] using le

theorem Values.remember {number : Nat} (values : R.Values m)
    (step : (R.inner number m.cells.size).Step cost m m')
    (values' : (R.inner number m.cells.size).Values m')
    (v : Value) : R.Values (Run.remember m' number (.ok v)) := by
  intro i cell outcome found reach known
  simp only [Run.remember, Array.getElem?_modify] at found
  split at found
  · obtain ⟨old, stored, rfl⟩ := Option.map_eq_some_iff.mp found
    exact ⟨v, (Option.some.inj known).symm⟩
  · by_cases inner : (R.inner number m.cells.size).reach i
    · exact values' i cell outcome found inner known
    · rw [step.outside i inner] at found
      exact values i cell outcome found reach known

section

variable {number : Nat} {cell : Cell} (inside : R.reach number)
  (lt : number < m.cells.size) (found : m.cells[number]? = some cell)
  (unknown : cell.outcome = none)
  (step : (R.inner number m.cells.size).Step (share cell.closure.position) m m')

include lt found unknown step

/-- The cell is outside of its inner region, so it still has no outcome and
gives up the charge of its closure. -/
theorem charge_remember_inner (outcome : Except EvaluationError Value)
    (q : Position) :
    (Run.remember m' number outcome).charge q + share cell.closure.position q =
      m'.charge q :=
  Machine.charge_remember
    ((step.outside number (not_reach_inner lt)).trans found) unknown outcome

theorem Short.remember (outcome : Except EvaluationError Value)
    (short : (R.inner number m.cells.size).Short
      (share cell.closure.position) m m') :
    R.Short (fun _ => 0) m (Run.remember m' number outcome) := by
  obtain ⟨deep, node, mem, less⟩ := short
  have given := charge_remember_inner lt found unknown step outcome node.1
  exact ⟨deep, node, mem, by omega⟩

include inside

theorem Step.remember (tidy : R.Tidy m) (outcome : Except EvaluationError Value) :
    R.Step (fun _ => 0) m (Run.remember m' number outcome) := by
  refine ⟨step.visits, by simpa [Run.remember] using step.cells,
    fun i out => ?_, fun q => ?_⟩
  · have other : ¬ number = i := fun same => out (same ▸ inside)
    simp only [Run.remember, Array.getElem?_modify, if_neg other]
    exact step.outside i fun reach => out (reach_of_inner tidy reach)
  · have spent := step.charge q
    have given := charge_remember_inner lt found unknown step outcome q
    omega

end

/-- Forcing a cell costs nothing: the charge of its closure was the cell's. -/
theorem Runs.force {number : Nat} {demand demand' : Closure → Run Value}
    (inside : R.reach number) (lt : number < bound)
    (demands : ∀ size, number < size → (∀ i, size ≤ i → R.reach i) →
      ∀ c, (R.inner number size).Closures size c →
      (R.inner number size).Runs depth size (share c.position) Any (demand c)
        (demand' c)) :
    R.Runs depth bound (fun _ => 0) Any (Run.force demand number)
      (Run.force demand' number) := by
  intro m tidy values deep bounded
  have lt : number < m.cells.size := Nat.lt_of_lt_of_le lt bounded
  have found := Array.getElem?_eq_getElem lt
  generalize m.cells[number] = cell at found
  cases known : cell.outcome with
  | some outcome =>
    obtain ⟨v, rfl⟩ := values number cell outcome found inside known
    rw [on_force_known found known, on_force_known found known]
    exact ⟨rfl, .ok (.refl m) tidy values trivial⟩
  | none =>
    have older := tidy.cells number cell found inside
    have closures :
        (R.inner number m.cells.size).Closures m.cells.size cell.closure :=
      ⟨older.node, fun b slot mem => (older.scope b slot mem).inner lt⟩
    have values' : (R.inner number m.cells.size).Values m :=
      fun i cell outcome found reach =>
      values i cell outcome found (reach_of_inner tidy reach)
    obtain ⟨same, ends⟩ :=
      demands m.cells.size lt tidy.fresh cell.closure closures m
        (tidy.inner number) values' deep
      (Nat.le_refl _)
    rw [on_force_open found known, on_force_open found known, same]
    refine ⟨rfl, ?_⟩
    generalize (demand' cell.closure).on m = ended at ends
    cases ends with
    | ok step tidy' values' _ =>
      have step' := Step.remember inside lt found known step tidy
      exact .ok (step' _) (tidy.remember step tidy' _)
        (values.remember step values' _) trivial
    | error step tidy' short =>
      have step' := Step.remember inside lt found known step tidy
      exact .error (step' _) (tidy.remember step tidy' _) fun limit same =>
        (short limit same).remember lt found known step _

end Region

end FieldExpr
