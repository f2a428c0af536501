import FieldExpr.Proofs.Evaluation.Forcing
import FieldExpr.Proofs.Evaluation.Measured

/-!
# Runs against what was promised

Each cell gets a promise when it is made: what demanding its closure comes to,
and the budget that this needs. A machine is honest if all its cells keep their
promises and remember nothing but the promised result. Evaluation keeps machines
honest, and a run that starts from one ends in the measured result of its
program or runs out of depth (`computes`).

When it runs out of depth depends on how cells are forced. A run always has
enough depth where the budget covers the need, since the need counts each demand
of a deferred program afresh. A run that remembers nothing also has enough only
there; a run that is `memoised` may do with less.
-/

namespace FieldExpr

open Run

/-- What the cells so far promise. -/
abbrev Promises := List (Measured Value)

namespace Promises

/-- Promises that are still made later. -/
def Kept (promises later : Promises) : Prop :=
  ∀ (number : Nat) (promise : Measured Value),
    promises[number]? = some promise → later[number]? = some promise

/-- A slot that comes to a prospect. -/
inductive Slots (promises : Promises) : Slot → Prospect → Prop
  | ready (v : Value) : Slots promises (.ready v) (.ready v)
  | deferred {number : Nat} {promise : Measured Value} :
    promises[number]? = some promise →
    Slots promises (.deferred number) (.suspended promise)

/-- A scope whose slots come to the prospects in an environment. -/
inductive Scopes (promises : Promises) : Scope → List (Binding × Prospect) → Prop
  | nil : Scopes promises [] []
  | cons {b slot prospect scope env} : Slots promises slot prospect →
    Scopes promises scope env →
    Scopes promises ((b, slot) :: scope) ((b, prospect) :: env)

/-- A closure that will keep a promise. -/
def Keeps (settings : Settings) (promises : Promises) (c : Closure)
    (promise : Measured Value) : Prop :=
  ∃ env, promises.Scopes c.scope env ∧
    c.program.measuredOutcome settings env c.subject = promise

/-- A cell that keeps a promise. It remembers only where evaluation is
`memoised`, and then no other result than the promised one. -/
structure Sound (settings : Settings) (memoised : Prop) (promises : Promises)
    (cell : Cell) (promise : Measured Value) : Prop where
  keeps : promises.Keeps settings cell.closure promise
  remembers : ∀ {outcome}, cell.outcome = some outcome →
    memoised ∧ promise.result = outcome

/-- A machine each of whose cells keeps its promise. -/
structure Honest (settings : Settings) (memoised : Prop) (promises : Promises)
    (m : Machine) : Prop where
  size : m.cells.size = promises.length
  sound : ∀ {number : Nat} {cell : Cell} {promise : Measured Value},
    m.cells[number]? = some cell →
    promises[number]? = some promise → promises.Sound settings memoised cell promise

/-! ## Later promises -/

section

variable {settings : Settings} {promises later : Promises}

theorem Kept.refl (promises : Promises) : promises.Kept promises := by
  intro number promise found
  exact found

theorem Kept.trans {last : Promises} (first : promises.Kept later)
    (second : later.Kept last) :
    promises.Kept last := by
  intro number promise found
  exact second _ _ (first _ _ found)

theorem Kept.append (promises more : Promises) :
    promises.Kept (promises ++ more) := by
  intro number promise found
  rw [List.getElem?_append_left (List.getElem?_eq_some_iff.mp found).1]
  exact found

theorem Slots.mono {slot : Slot} {prospect : Prospect}
    (slots : promises.Slots slot prospect) (kept : promises.Kept later) :
    later.Slots slot prospect := by
  cases slots with
  | ready v => exact .ready v
  | deferred found => exact .deferred (kept _ _ found)

theorem Scopes.mono {scope : Scope} {env : List (Binding × Prospect)}
    (scopes : promises.Scopes scope env) (kept : promises.Kept later) :
    later.Scopes scope env := by
  induction scopes with
  | nil => exact .nil
  | cons slots _ ih => exact .cons (slots.mono kept) ih

theorem Keeps.mono {c : Closure} {promise : Measured Value}
    (keeps : promises.Keeps settings c promise) (kept : promises.Kept later) :
    later.Keeps settings c promise := by
  obtain ⟨env, scopes, outcome⟩ := keeps
  exact ⟨env, scopes.mono kept, outcome⟩

/-- A binding has a slot where it has a prospect, and the slot comes to it. -/
theorem Scopes.lookup {scope : Scope} {env : List (Binding × Prospect)}
    (scopes : promises.Scopes scope env) (b : Binding) :
    Option.Rel promises.Slots (scope.lookup b) (env.lookup b) := by
  induction scopes with
  | nil => exact .none
  | @cons a slot prospect scope env slots _ ih =>
    rw [List.lookup_cons, List.lookup_cons]
    cases b == a with
    | true => exact .some slots
    | false => exact ih

end

/-! ## Honest machines -/

section

variable {settings : Settings} {memoised : Prop} {promises : Promises} {m : Machine}

theorem Honest.empty (settings : Settings) (memoised : Prop) :
    Honest settings memoised [] {} := by
  refine ⟨rfl, ?_⟩
  intro number cell promise _ found
  cases found

/-- A promise has its cell. -/
theorem Honest.cell (honest : promises.Honest settings memoised m)
    {number : Nat} {promise : Measured Value}
    (found : promises[number]? = some promise) :
    ∃ cell, m.cells[number]? = some cell ∧
    promises.Sound settings memoised cell promise := by
  have inside : number < m.cells.size := by
    rw [honest.size]
    exact (List.getElem?_eq_some_iff.mp found).1
  have there := Array.getElem?_eq_getElem inside
  exact ⟨_, there, honest.sound there found⟩

/-- One more cell takes one more promise. Those before it keep the promises they
had, which are still made. -/
theorem Honest.push (honest : promises.Honest settings memoised m) {c : Closure}
    {promise : Measured Value} (keeps : promises.Keeps settings c promise) :
    (promises ++ [promise]).Honest settings memoised
      { m with cells := m.cells.push ⟨c, none⟩ } := by
  have kept := Kept.append promises [promise]
  refine ⟨by simp [honest.size], ?_⟩
  intro number cell promise' found found'
  rw [Array.getElem?_push, honest.size] at found
  split at found
  · rename_i last
    cases found
    subst last
    rw [List.getElem?_concat_length] at found'
    cases found'
    exact ⟨keeps.mono kept, fun known => by cases known⟩
  · have before : number < promises.length := by
      rw [← honest.size]
      exact (Array.getElem?_eq_some_iff.mp found).1
    rw [List.getElem?_append_left before] at found'
    have sound := honest.sound found found'
    exact ⟨sound.keeps.mono kept, sound.remembers⟩

end

/-! ## Runs against measures -/

/-- What a run comes to that computes a measure with a budget: the result of the
measure, or an exceeded limit. The limit is only exceeded where the budget falls
short of the need; where it does and the result is reached all the same,
evaluation is `memoised`. -/
inductive Ends {α β : Type} (settings : Settings) (memoised : Prop)
    (budget : Nat) (promises : Promises) (R : Promises → α → β → Prop) :
    Except EvaluationError α × Machine → Measured β → Prop
  | ok {later a b need m} : promises.Kept later →
    later.Honest settings memoised m → R later a b →
    (budget < need → memoised) → Ends settings memoised budget promises R
      (.ok a, m) ⟨.ok b, need⟩
  | error {e need m} : (budget < need → memoised) →
    Ends settings memoised budget promises R (.error e, m) ⟨.error e, need⟩
  | short {x m} : budget < x.need →
    Ends settings memoised budget promises R
      (.error (.depthLimitExceeded settings.maxDepth), m) x

/-- Any budget is enough where none is needed. -/
theorem enough_of_zero {memoised : Prop} {budget : Nat} (short : budget < 0) :
    memoised :=
  absurd short (Nat.not_lt_zero budget)

/-- A budget that is enough for two computations is enough for both in turn. -/
theorem enough_of_max {memoised : Prop} {budget need need' : Nat}
    (first : budget < need → memoised) (second : budget < need' → memoised)
    (short : budget < max need need') : memoised := by
  rcases Nat.lt_or_ge budget need with less | enough
  · exact first less
  · exact second (by omega)

/-- A run that computes a measure from every honest machine. -/
def Computes {α β : Type} (settings : Settings) (memoised : Prop) (budget : Nat)
    (promises : Promises) (R : Promises → α → β → Prop) (x : Run α)
    (measure : Measured β) : Prop :=
  ∀ m, promises.Honest settings memoised m →
    Ends settings memoised budget promises R (x.on m) measure

namespace Computes

variable {α β γ δ : Type} {settings : Settings} {memoised : Prop} {budget : Nat}
  {promises : Promises} {R : Promises → α → β → Prop} {S : Promises → γ → δ → Prop}

theorem pure {a : α} {b : β} (related : R promises a b) :
    Computes settings memoised budget promises R (Pure.pure a) (Pure.pure b) := by
  intro m honest
  exact .ok (.refl promises) honest related enough_of_zero

theorem lift (result : Except EvaluationError α) :
    Computes settings memoised budget promises (fun _ => Eq) (Run.lift result)
      (.lift result) := by
  intro m honest
  rw [on_lift]
  cases result with
  | ok a => exact .ok (.refl promises) honest rfl enough_of_zero
  | error e => exact .error enough_of_zero

theorem bind {x : Run α} {measure : Measured β} {f : α → Run γ} {g : β → Measured δ}
    (first : Computes settings memoised budget promises R x measure)
    (next : ∀ later a b, promises.Kept later → R later a b →
      Computes settings memoised budget later S (f a) (g b)) :
    Computes settings memoised budget promises S (x >>= f) (measure >>= g) := by
  intro m honest
  rw [on_bind]
  have ends := first m honest
  generalize x.on m = ended at ends
  cases ends with
  | error enough => exact .error enough
  | short short =>
    refine .short (Nat.lt_of_not_le fun le => ?_)
    exact Nat.not_le_of_lt short (Measured.need_bind_le_iff.mp le).1
  | @ok later a b need m' kept honest related enough =>
    have ends := next later a b kept related m' honest
    change Ends settings memoised budget promises S ((f a).on m')
      ⟨(g b).result, max need (g b).need⟩
    generalize (f a).on m' = ended at ends
    generalize g b = rest at ends
    cases ends with
    | ok kept' honest related enough' =>
      exact .ok (kept.trans kept') honest related (enough_of_max enough enough')
    | error enough' => exact .error (enough_of_max enough enough')
    | short short => exact .short (Nat.lt_of_lt_of_le short (Nat.le_max_right ..))

/-- A run that computes a value hands on that value. -/
theorem bindValue {x : Run α} {measure : Measured α} {f : α → Run γ}
    {g : α → Measured δ}
    (first : Computes settings memoised budget promises (fun _ => Eq) x measure)
    (next : ∀ later a, promises.Kept later →
      Computes settings memoised budget later S (f a) (g a)) :
    Computes settings memoised budget promises S (x >>= f) (measure >>= g) := by
  refine .bind first fun later a b kept same => ?_
  subst same
  exact next later a kept

/-- One more level takes one more unit of budget. -/
theorem deeper {x : Run α} {measure : Measured β}
    (computes : Computes settings memoised budget promises R x measure) :
    Computes settings memoised (budget + 1) promises R x measure.deeper := by
  intro m honest
  have ends := computes m honest
  generalize x.on m = ended at ends
  cases ends with
  | ok kept honest related enough =>
    exact .ok kept honest related fun short => enough (Nat.lt_of_succ_lt_succ short)
  | error enough => exact .error fun short => enough (Nat.lt_of_succ_lt_succ short)
  | short short => exact .short (Nat.succ_lt_succ short)

/-- Entering a node is nothing to the result. -/
theorem enter {x : Run α} {measure : Measured β} (c : Closure) (depth : Nat)
    (computes : Computes settings memoised budget promises R x measure) :
    Computes settings memoised budget promises R
      (Run.enter c depth >>= fun _ => x) measure := by
  intro m honest
  rw [on_bind, on_enter]
  exact computes _ ⟨honest.size, honest.sound⟩

/-- A new cell promises what its closure comes to. -/
theorem suspend {c : Closure} {promise : Measured Value}
    (keeps : promises.Keeps settings c promise) :
    Computes settings memoised budget promises Slots (Run.suspend c)
      (Pure.pure (.suspended promise)) := by
  intro m honest
  have last : (promises ++ [promise])[m.cells.size]? = some promise := by
    rw [honest.size]
    exact List.getElem?_concat_length ..
  rw [on_suspend]
  exact .ok (.append promises [promise]) (honest.push keeps)
    (.deferred last) enough_of_zero

/-- The result of a rule, for a slot. -/
theorem ready (result : Except EvaluationError Value) :
    Computes settings memoised budget promises Slots
      (do return .ready (← Run.lift result))
      (do return .ready (← .lift result)) := by
  refine .bindValue (.lift result) fun later v _ => ?_
  exact .pure (.ready v)

end Computes

/-! ## Nodes -/

/-- An evaluator that computes slots. -/
def Evals (settings : Settings) (memoised : Prop) (budget : Nat)
    (eval : Closure → Run Slot) : Prop :=
  ∀ (promises : Promises) (c : Closure) (env : List (Binding × Prospect)),
    promises.Scopes c.scope env →
    Computes settings memoised budget promises Slots (eval c)
      (c.program.measured settings env c.subject)

/-- An evaluator that computes values. -/
def Demands (settings : Settings) (memoised : Prop) (budget : Nat)
    (demand : Closure → Run Value) : Prop :=
  ∀ (promises : Promises) (c : Closure) (env : List (Binding × Prospect)),
    promises.Scopes c.scope env →
    Computes settings memoised budget promises (fun _ => Eq) (demand c)
      (c.program.measuredOutcome settings env c.subject)

section

variable {settings : Settings} {memoised : Prop} {budget : Nat}
  {eval : Closure → Run Slot} {demand : Closure → Run Value}
  (evals : Evals settings memoised budget eval)
  (demands : Demands settings memoised budget demand) {promises : Promises}
  {env : List (Binding × Prospect)} {position : Program.Position}
  {scope : Scope} {subject : Value}

include demands

theorem Demands.operand {p : Program} (scopes : promises.Scopes scope env) :
    Computes settings memoised budget promises (fun _ => Eq)
      (Run.operand demand ⟨p, position, scope, subject⟩)
      (p.measuredOperand (p.measuredOutcome settings env subject)) := by
  cases p with
  | literal v shape =>
    rw [operand_literal]
    exact .lift _
  | _ =>
    rw [operand_of_not_literal _ (by intro v s h; cases h)]
    exact demands promises _ env scopes

theorem Demands.condition {p : Program} (operator : Operator)
    (scopes : promises.Scopes scope env) :
    Computes settings memoised budget promises (fun _ => Eq)
      (Run.condition demand operator ⟨p, position, scope, subject⟩)
      (p.measuredOutcome settings env subject >>=
        fun v => .lift (Rule.condition operator v)) := by
  rw [condition_eq]
  refine .bindValue (demands promises _ env scopes) fun later v _ => ?_
  exact .lift _

/-- A value that is demanded for a slot. -/
theorem Demands.ready {p : Program} (scopes : promises.Scopes scope env) :
    Computes settings memoised budget promises Slots
      (do return .ready (← demand ⟨p, position, scope, subject⟩))
      (do return .ready (← p.measuredOutcome settings env subject)) := by
  refine .bindValue (demands promises _ env scopes) fun later v _ => ?_
  exact .pure (.ready v)

include evals

/-- The rule of each node computes its measure if the evaluators of its parts
do, with a budget of one less. -/
theorem computes_node (p : Program) (scopes : promises.Scopes scope env) :
    Computes settings memoised (budget + 1) promises Slots
      (Run.node settings eval demand ⟨p, position, scope, subject⟩)
      (p.measured settings env subject) := by
  cases p with
  | identity => exact .deeper (.pure (.ready _))
  | lookup b =>
    rw [node_lookup]
    refine .deeper fun m honest => ?_
    have found := scopes.lookup b
    rw [on_lift]
    generalize scope.lookup b = left at found
    generalize env.lookup b = right at found
    cases found with
    | none => exact .error enough_of_zero
    | some slots => exact .ok (.refl _) honest slots enough_of_zero
  | literal v shape => exact .deeper (.pure (.ready _))
  | immediate inner => exact .deeper (demands.ready scopes)
  | defer inner => exact .deeper (.suspend ⟨env, scopes, rfl⟩)
  | functionDef b body input =>
    refine .deeper
      (.bind (evals promises _ env scopes) fun later slot prospect kept slots => ?_)
    exact evals later _ _ (.cons slots (scopes.mono kept))
  | pipe left right =>
    refine .deeper
      (.bindValue (demands promises _ env scopes) fun later v kept => ?_)
    exact evals later _ env (scopes.mono kept)
  | equalTo tag left right =>
    rw [node_equalTo]
    refine .deeper (.bindValue (demands.operand scopes) fun later l kept => ?_)
    refine .bindValue (demands.operand (scopes.mono kept)) fun later r _ => ?_
    refine .bindValue (.lift _) fun later equal _ => ?_
    exact .pure (.ready _)
  | binaryMath op tag left right =>
    rw [node_binaryMath]
    refine .deeper (.bindValue (demands.operand scopes) fun later l kept => ?_)
    refine .bindValue (demands.operand (scopes.mono kept)) fun later r _ => ?_
    exact .ready _
  | unaryMath op tag operand =>
    rw [node_unaryMath]
    refine .deeper (.bindValue (demands.operand scopes) fun later v _ => ?_)
    exact .ready _
  | binaryLogical op left right =>
    rw [node_binaryLogical]
    refine .deeper (.bindValue (demands.condition _ scopes) fun later l kept => ?_)
    split
    · exact .pure (.ready _)
    · refine .bindValue (demands.condition _ (scopes.mono kept)) fun later r _ => ?_
      exact .pure (.ready _)
  | not operand =>
    refine .deeper
      (.bindValue (demands.condition .not scopes) fun later truth _ => ?_)
    exact .pure (.ready _)
  | diverge condition onTrue onFalse =>
    refine .deeper
      (.bindValue (demands.condition .diverge scopes) fun later choice kept => ?_)
    cases choice with
    | true => exact demands.ready (scopes.mono kept)
    | false => exact demands.ready (scopes.mono kept)
  | tupleGetIndex tuple index =>
    rw [node_tupleGetIndex]
    refine .deeper (.bindValue (demands promises _ env scopes) fun later v _ => ?_)
    exact .ready _

end

/-! ## Evaluations -/

/-- A way of forcing that computes what a cell promises, as evaluators of
its closure do. -/
def Forces (settings : Settings) (memoised : Prop) (forcing : Forcing) : Prop :=
  ∀ {budget demand}, Demands settings memoised budget demand →
    ∀ {promises : Promises} {number promise}, promises[number]? = some promise →
      Computes settings memoised budget promises (fun _ => Eq)
        (forcing demand number) promise

/-- Without budget a run is short of every program. -/
theorem computes_without_budget {α β : Type} {settings : Settings}
    {memoised : Prop} {promises : Promises} {R : Promises → α → β → Prop}
    {measure : Measured β} (need : 0 < measure.need) :
    Computes settings memoised 0 promises R
      (throw (.depthLimitExceeded settings.maxDepth)) measure := by
  intro m _
  exact .short need

/-- The evaluators with any budget compute what is measured, if cells are forced
in a way that does. -/
theorem computes {settings : Settings} {memoised : Prop} {forcing : Forcing}
    (forces : Forces settings memoised forcing) (budget : Nat) : ∀ depth,
    Evals settings memoised budget (evalUsing forcing settings budget depth) ∧
      Demands settings memoised budget
        (demandUsing forcing settings budget depth) := by
  induction budget with
  | zero =>
    intro depth
    constructor
    · intro promises c env _
      exact computes_without_budget
        (c.program.need_measured_pos settings env c.subject)
    · intro promises c env _
      exact computes_without_budget
        (c.program.need_measuredOutcome_pos settings env c.subject)
  | succ budget ih =>
    intro depth
    obtain ⟨evals, demands⟩ := ih (depth + 1)
    constructor
    · intro promises c env scopes
      exact .enter c depth (computes_node evals demands c.program scopes)
    · intro promises c env scopes
      refine .enter c depth (.bind (computes_node evals demands c.program scopes)
        fun later slot prospect _ slots => ?_)
      cases slots with
      | ready v => exact .pure rfl
      -- A cell is forced with what is left of the budget, which is what its
      -- prospect counts on.
      | deferred found => exact .deeper (forces demands found)

end Promises

/-- The slots of a context come to its values. -/
theorem Context.scopes (context : Context) (p : Program) (subject : Value) :
    Promises.Scopes [] (p.closure context subject).scope context.prospects := by
  show Promises.Scopes [] (context.bindings.map _) (context.bindings.map _)
  induction context.bindings with
  | nil => exact .nil
  | cons entry _ ih => exact .cons (.ready entry.2) ih

/-- A whole program comes to its measured result if cells are forced in a way
that computes what they promise, or else exceeds the limit, if that is less than
the program needs. -/
theorem resultUsing_of_forces {settings : Settings} {memoised : Prop}
    {forcing : Run.Forcing} (forces : Promises.Forces settings memoised forcing)
    (p : Program) (context : Context) (subject : Value) :
    p.resultUsing forcing settings context subject =
        (p.measuredOutcome settings context.prospects subject).result ∧
        (settings.maxDepth + 1 <
          (p.measuredOutcome settings context.prospects subject).need → memoised) ∨
      p.resultUsing forcing settings context subject =
        .error (.depthLimitExceeded settings.maxDepth) ∧
        settings.maxDepth + 1 <
          (p.measuredOutcome settings context.prospects subject).need := by
  have ends := (Promises.computes forces (settings.maxDepth + 1) 0).2 []
    (p.closure context subject) context.prospects (context.scopes p subject) {}
    (.empty settings memoised)
  change Promises.Ends settings memoised (settings.maxDepth + 1) [] _ _
    (p.measuredOutcome settings context.prospects subject) at ends
  unfold Program.resultUsing
  generalize (Run.demandUsing forcing settings (settings.maxDepth + 1) 0
      (p.closure context subject)).on {} = ended
    at ends
  generalize p.measuredOutcome settings context.prospects subject = measure at ends
  cases ends with
  | ok _ _ same enough =>
    subst same
    exact .inl ⟨rfl, enough⟩
  | error enough => exact .inl ⟨rfl, enough⟩
  | short short => exact .inr ⟨rfl, short⟩

end FieldExpr
