import FieldExpr.Proofs.Evaluation.Rule
import FieldExpr.Proofs.Lookup
import FieldExpr.Proofs.Program.Deferring

/-!
# Nodes are entered in order

Where no definition has a deferring input, evaluation enters nodes in the order
in which the program lists them. It may skip some: literal operands, branches
that are not taken, all that comes after a failure. But it does not go back. A
deferred program only comes up as the last thing that a node ends in, and no
binding keeps it; it is handed on from one node to the one above until that one
demands it, and its nodes are then the next in order.

A run therefore walks along the nodes that it is given (`Walks`): it enters
some, and what it hands on to be entered later are nodes behind those.
-/

namespace FieldExpr

open Program (Position)

/-- A node as evaluation records it: where it stands in the whole program,
and its kind. -/
abbrev Entry := Position × NodeKind

/-- The entries of a program's nodes in order: the root, and then those of its
children one after the other. -/
def Program.entries (p : Program) (position : Position) : List Entry :=
  (p.nodes position).map fun (q, part) => (q, part.kind)

/-- The entries of what is below the root. -/
def Program.childEntries (p : Program) (position : Position) : List Entry :=
  p.children.zipIdx.flatMap fun (child, k) => child.entries (k :: position)

theorem Program.entries_eq (p : Program) (position : Position) :
    p.entries position = (position, p.kind) :: p.childEntries position := by
  unfold entries childEntries
  rw [nodes_eq, List.map_cons, List.map_flatMap]
  rfl

/-- The nodes that have been entered, in order. -/
def Machine.entered (m : Machine) : List Entry :=
  m.visits.toList.map fun v => (v.position, v.kind)

namespace Closure

/-- The entries of a closure's program, which stands where the closure says. -/
def entries (c : Closure) : List Entry :=
  c.program.entries c.position

/-- A closure in which nothing is put off: its bindings are values, and so will
be those of its definitions. -/
structure Prompt (c : Closure) : Prop where
  strictLets : c.program.StrictLets
  values : ∀ b slot, c.scope.lookup b = some slot → ∃ v, slot = .ready v

namespace Prompt

variable {c : Closure}

theorem child (prompt : c.Prompt) (number : Nat) {p : Program}
    (found : c.program.children[number]? = some p) :
    (c.child number p).Prompt :=
  ⟨prompt.strictLets.child (List.mem_of_getElem? found), prompt.values⟩

theorem facing (prompt : c.Prompt) (subject : Value) : Prompt { c with subject } :=
  ⟨prompt.strictLets, prompt.values⟩

/-- Binding a value keeps it so. -/
theorem bind (prompt : c.Prompt) (b : Binding) (v : Value) :
    Prompt { c with scope := (b, .ready v) :: c.scope } := by
  refine ⟨prompt.strictLets, fun a slot found => ?_⟩
  rw [List.lookup_cons] at found
  split at found
  · cases found
    exact ⟨v, rfl⟩
  · exact prompt.values a slot found

end Prompt

end Closure

namespace Run

/-- What is left to enter behind a slot: nothing behind a value, and the nodes
of its closure behind a cell that has not been forced. -/
inductive Pending (m : Machine) : List Entry → Slot → Prop
  | ready {rest : List Entry} (v : Value) : Pending m rest (.ready v)
  | deferred {c : Closure} {number : Nat} : m.cells[number]? = some ⟨c, none⟩ →
    c.Prompt →
    Pending m c.entries (.deferred number)

/-- What a program hands on. Only a deferring one hands on a cell. -/
structure Hands (deferring : Bool) (m : Machine) (rest : List Entry)
    (slot : Slot) : Prop where
  pending : Pending m rest slot
  value : deferring = false → ∃ v, slot = .ready v

theorem Hands.ready {deferring : Bool} {m : Machine} {rest : List Entry}
    (v : Value) :
    Hands deferring m rest (.ready v) :=
  ⟨.ready v, fun _ => ⟨v, rfl⟩⟩

/-- Whatever is left to enter, nothing will enter it. -/
def Done {α : Type} (_ : Machine) (_ : List Entry) (_ : α) : Prop :=
  True

/-- A run walks along entries: those that it makes come in their order, and so
do those behind them that it leaves for later, of which `after` says what
becomes. A run that fails walks as far as it comes. -/
def Walks {α : Type} (after : Machine → List Entry → α → Prop)
    (entries : List Entry) (x : Run α) (m : Machine) : Prop :=
  ∃ made rest, (x.on m).2.entered = m.entered ++ made ∧
    (made ++ rest).Sublist entries ∧
    ∀ a, (x.on m).1 = .ok a → after (x.on m).2 rest a

namespace Walks

variable {α β : Type} {before : Machine → List Entry → α → Prop}
  {after : Machine → List Entry → β → Prop} {entries entries' : List Entry}
  {m : Machine}

theorem mono {x : Run β} (walks : Walks after entries x m)
    (sub : entries.Sublist entries') :
    Walks after entries' x m := by
  obtain ⟨made, rest, visits, order, kept⟩ := walks
  exact ⟨made, rest, visits, order.trans sub, kept⟩

theorem lift (result : Except EvaluationError β)
    (kept : ∀ b, result = .ok b → after m [] b) :
    Walks after entries (Run.lift result) m :=
  ⟨[], [], (List.append_nil _).symm, List.nil_sublist _, kept⟩

theorem pure {b : β} (kept : after m [] b) : Walks after entries (Pure.pure b) m :=
  .lift (.ok b) fun _ same => by
    cases same
    exact kept

/-- What follows a run walks along what that left, and then along
entries of its own. -/
theorem bind {x : Run α} {f : α → Run β} (first : Walks before entries x m)
    (next : ∀ m' rest a, before m' rest a →
      Walks after (rest ++ entries') (f a) m') :
    Walks after (entries ++ entries') (x >>= f) m := by
  obtain ⟨made, rest, visits, order, kept⟩ := first
  unfold Walks
  rw [on_bind]
  generalize x.on m = ended at visits kept
  obtain ⟨result, m'⟩ := ended
  cases result with
  | error e =>
    refine ⟨made, [], visits, ?_, nofun⟩
    rw [List.append_nil]
    exact (List.sublist_append_left made rest).trans
      (order.trans (List.sublist_append_left entries entries'))
  | ok a =>
    obtain ⟨made', rest', visits', order', kept'⟩ := next m' rest a (kept a rfl)
    refine ⟨made ++ made', rest', ?_, ?_, kept'⟩
    · rw [visits', show m'.entered = m.entered ++ made from visits,
        List.append_assoc]
    · have later :
        (made ++ (made' ++ rest')).Sublist (made ++ (rest ++ entries')) :=
        order'.append_left made
      have sooner : ((made ++ rest) ++ entries').Sublist
        (entries ++ entries') := order.append_right entries'
      rw [List.append_assoc] at sooner ⊢
      exact later.trans sooner

/-- What follows a value walks along entries of its own. -/
theorem bindValue {x : Run α} {f : α → Run β} (first : Walks Done entries x m)
    (next : ∀ m' a, Walks after entries' (f a) m') :
    Walks after (entries ++ entries') (x >>= f) m :=
  .bind first fun m' rest a _ =>
    (next m' a).mono (List.sublist_append_right rest entries')

/-- Entering a node is the first step along its entries. -/
theorem enter {c : Closure} {depth : Nat} {x : Run β}
    (node : ∀ m, Walks after (c.program.childEntries c.position) x m) :
    Walks after c.entries (Run.enter c depth >>= fun _ => x) m := by
  have first : Walks Done [(c.position, c.program.kind)] (Run.enter c depth) m := by
    refine ⟨[(c.position, c.program.kind)], [], ?_, List.Sublist.refl _,
      fun _ _ => trivial⟩
    rw [on_enter]
    simp only [Machine.entered, Array.toList_push, List.map_append,
      List.map_cons, List.map_nil]
  have entries :
      c.entries = [(c.position, c.program.kind)] ++
      c.program.childEntries c.position :=
    c.program.entries_eq c.position
  rw [entries]
  exact .bindValue first fun m' _ => node m'

/-- A cell that is made keeps the entries of its closure for later. -/
theorem suspend {c : Closure} (prompt : c.Prompt) :
    Walks (Hands true) c.entries (Run.suspend c) m := by
  refine ⟨[], c.entries, (List.append_nil _).symm, List.Sublist.refl _,
    fun slot same => ?_⟩
  rw [on_suspend] at same ⊢
  cases same
  exact ⟨.deferred Array.getElem?_push_size prompt, nofun⟩

end Walks

/-! ## Nodes -/

/-- An evaluator that walks along the entries of a closure, and hands on the
rest if there is one. -/
def EvalWalks (eval : Closure → Run Slot) : Prop :=
  ∀ c : Closure, c.Prompt →
    ∀ m, Walks (Hands c.program.deferring) c.entries (eval c) m

/-- An evaluator that walks along the entries of a closure to its end. -/
def DemandWalks (demand : Closure → Run Value) : Prop :=
  ∀ c : Closure, c.Prompt → ∀ m, Walks Done c.entries (demand c) m

section

variable {settings : Settings} {eval : Closure → Run Slot}
    {demand : Closure → Run Value} {m : Machine}

/-- Forcing what is pending walks along the entries that were left. -/
theorem DemandWalks.force (demands : DemandWalks demand) {rest : List Entry}
    {number : Nat} (pending : Pending m rest (.deferred number)) :
    Walks Done rest (Run.force demand number) m := by
  cases pending with
  | @deferred c _ found prompt =>
    obtain ⟨made, rest, visits, order, _⟩ := demands c prompt m
    unfold Walks
    rw [on_force_open found rfl]
    exact ⟨made, rest, visits, order, fun _ _ => trivial⟩

/-- A literal operand is not entered. -/
theorem DemandWalks.operand (demands : DemandWalks demand) {c : Closure}
    (prompt : c.Prompt) :
    Walks Done c.entries (Run.operand demand c) m := by
  obtain ⟨program, position, scope, subject⟩ := c
  cases program with
  | literal v shape =>
    rw [operand_literal]
    exact .lift _ fun _ _ => trivial
  | _ =>
    rw [operand_of_not_literal _ (by intro v s h; cases h)]
    exact demands _ prompt m

theorem DemandWalks.condition (demands : DemandWalks demand) {c : Closure}
    (prompt : c.Prompt) (operator : Operator) :
    Walks Done c.entries (Run.condition demand operator c) m := by
  rw [condition_eq, ← List.append_nil c.entries]
  exact .bindValue (demands c prompt m) fun m' v => .lift _ fun _ _ => trivial

/-- What a rule makes of values is a value. -/
theorem Walks.rule {α : Type} {deferring : Bool} {entries : List Entry}
    (result : Except EvaluationError α) (value : α → Value) :
    Walks (Hands deferring) entries
      (do return .ready (value (← Run.lift result))) m := by
  have nothing : Walks Done [] (Run.lift result) m :=
    .lift result fun _ _ => trivial
  exact .bindValue nothing fun m' a => .pure (.ready (value a))

/-- A value that is demanded for a slot. -/
theorem DemandWalks.ready (demands : DemandWalks demand) {deferring : Bool}
    {c : Closure} (prompt : c.Prompt) :
    Walks (Hands deferring) c.entries (do return .ready (← demand c)) m := by
  rw [← List.append_nil c.entries]
  exact .bindValue (demands c prompt m) fun m' v => .pure (.ready v)

/-- The rule of each node walks along the entries below it if the evaluators of
its parts do. -/
theorem walks_node (evals : EvalWalks eval) (demands : DemandWalks demand)
    {c : Closure} (prompt : c.Prompt) :
    Walks (Hands c.program.deferring) (c.program.childEntries c.position)
      (node settings eval demand c) m := by
  obtain ⟨program, position, scope, subject⟩ := c
  cases program with
  | identity => exact .pure (.ready subject)
  | lookup b =>
    rw [node_lookup]
    refine .lift _ fun slot same => ?_
    cases found : scope.lookup b with
    | none =>
      rw [found] at same
      cases same
    | some _ =>
      rw [found] at same
      cases same
      obtain ⟨v, rfl⟩ := prompt.values b slot found
      exact .ready v
  | literal v shape => exact .pure (.ready v)
  | immediate inner =>
    exact (demands.ready (prompt.child 0 rfl)).mono (List.sublist_append_left ..)
  | defer inner =>
    exact (Walks.suspend (prompt.child 0 rfl)).mono (List.sublist_append_left ..)
  | functionDef b body input =>
    refine .bind (evals _ (prompt.child 0 rfl) m) fun m' rest slot hands => ?_
    -- The input is not deferring, so the binding is a value and no entry is
    -- left behind it.
    obtain ⟨v, rfl⟩ := hands.value prompt.strictLets.input.ends
    have walks := evals _ ((prompt.child 1 rfl).bind b v) m'
    exact (walks.mono (List.sublist_append_left ..)).mono
      (List.sublist_append_right ..)
  | pipe left right =>
    refine .bindValue (demands _ (prompt.child 0 rfl) m) fun m' v => ?_
    exact (evals _ ((prompt.child 1 rfl).facing v) m').mono
      (List.sublist_append_left ..)
  | equalTo tag left right =>
    rw [node_equalTo]
    refine .bindValue (demands.operand (prompt.child 0 rfl)) fun m' l => ?_
    refine .bindValue (demands.operand (prompt.child 1 rfl)) fun m' r => ?_
    exact .rule _ .boolean
  | binaryMath op tag left right =>
    rw [node_binaryMath]
    refine .bindValue (demands.operand (prompt.child 0 rfl)) fun m' l => ?_
    refine .bindValue (demands.operand (prompt.child 1 rfl)) fun m' r => ?_
    exact .rule _ fun v => v
  | unaryMath op tag operand =>
    rw [node_unaryMath]
    refine .bindValue (demands.operand (prompt.child 0 rfl)) fun m' v => ?_
    exact .rule _ fun v => v
  | binaryLogical op left right =>
    rw [node_binaryLogical]
    refine .bindValue (demands.condition (prompt.child 0 rfl) _) fun m' l => ?_
    split
    · exact .pure (.ready _)
    · refine .bindValue (demands.condition (prompt.child 1 rfl) _) fun m' r => ?_
      exact .pure (.ready _)
  | not operand =>
    refine .bindValue (demands.condition (prompt.child 0 rfl) _) fun m' truth => ?_
    exact .pure (.ready _)
  | diverge condition onTrue onFalse =>
    refine .bindValue (demands.condition (prompt.child 0 rfl) _) fun m' choice => ?_
    -- Either branch skips the entries of the other.
    cases choice with
    | true =>
      exact (demands.ready (prompt.child 1 rfl)).mono (List.sublist_append_left ..)
    | false =>
      have walks : Walks (Hands false) (onFalse.entries (2 :: position)) _ m' :=
        demands.ready (prompt.child 2 rfl)
      exact (walks.mono (List.sublist_append_left ..)).mono
        (List.sublist_append_right ..)
  | tupleGetIndex tuple index =>
    rw [node_tupleGetIndex]
    refine .bindValue (demands _ (prompt.child 0 rfl) m) fun m' v => ?_
    exact .rule _ fun v => v

end

/-- The evaluators with any budget walk along the entries of their closures. -/
theorem walks (settings : Settings) (budget : Nat) :
    ∀ depth, EvalWalks (eval settings budget depth) ∧
    DemandWalks (demand settings budget depth) := by
  -- The induction is on the budget, for every closure whose bindings are values
  -- and from every machine.
  induction budget with
  | zero =>
    intro depth
    exact ⟨fun c _ m => .lift (.error _) nofun, fun c _ m => .lift (.error _) nofun⟩
  | succ budget ih =>
    intro depth
    obtain ⟨evals, demands⟩ := ih (depth + 1)
    refine ⟨fun c prompt m => .enter fun m => walks_node evals demands prompt,
      fun c prompt m => .enter fun m => ?_⟩
    rw [← List.append_nil (c.program.childEntries c.position)]
    refine .bind (walks_node evals demands prompt) fun m' rest slot hands => ?_
    -- What the node hands on is forced before anything else, so its cell is
    -- still as it was made.
    cases slot with
    | ready v => exact .pure trivial
    | deferred number =>
      exact (demands.force hands.pending).mono (List.sublist_append_left ..)

end Run

namespace Program

/-- Where no definition has a deferring input, evaluation enters nodes in the
order of the program, each after those that stand before it, and goes back to
none. That is so for runs that end in an error as well. -/
theorem evaluation_inOrder {p : Program} (strict : p.StrictLets)
    (config : EngineConfig) (context : Context) (subject : Value) :
    (p.evaluation config context subject).machine.entered.Sublist
      (p.entries []) := by
  have prompt : (p.closure context subject).Prompt := by
    refine ⟨strict, fun b slot found => ?_⟩
    change List.lookup b (context.bindings.map fun (entry : Binding × Value) =>
      (entry.1, Slot.ready entry.2)) = _ at found
    rw [lookup_map_values] at found
    obtain ⟨v, _, rfl⟩ := Option.map_eq_some_iff.mp found
    exact ⟨v, rfl⟩
  have walks :=
    (Run.walks (.ofConfig config context) (config.maxDepth.toNat + 1) 0).2
      _ prompt {}
  obtain ⟨made, rest, visits, order, _⟩ := walks
  have visits : (p.evaluation config context subject).machine.entered = made :=
    visits
  rw [visits]
  exact (List.sublist_append_left made rest).trans order

/-- One more than the subject, settled before it is bound, and its opposite
where it is large. The opposite and both branches are put off. -/
def oppositeOfLarge : Program :=
  .functionDef ⟨0⟩
    (.pipe (.defer (.lookup ⟨0⟩))
      (.defer
        (.diverge (.binaryMath .greaterThan .integer .identity
        (.literal (.integer 3) .integer)) (.defer
          (.unaryMath .negate .integer (.lookup ⟨0⟩))) (.defer .identity))))
    (.immediate
      (.defer (.binaryMath .add .integer .identity
      (.literal (.integer 1) .integer))))

/-- Two literal operands and the branch that is not taken are skipped. -/
theorem evaluation_inOrder_oppositeOfLarge :
    (oppositeOfLarge.evaluation { maxDepth := 9 } {}
      (.integer 5)).machine.entered.Sublist (oppositeOfLarge.entries []) ∧
      (oppositeOfLarge.evaluation { maxDepth := 9 } {}
        (.integer 5)).machine.entered.map Prod.snd =
        [.functionDef, .immediate, .defer, .math, .identity, .pipe, .defer,
          .lookup, .defer, .logical, .math, .identity, .defer, .math, .lookup] ∧
      (oppositeOfLarge.entries []).map Prod.snd =
        [.functionDef, .immediate, .defer, .math, .identity, .literal, .pipe,
          .defer, .lookup, .defer, .logical, .math, .identity, .literal, .defer,
          .math, .lookup, .defer, .identity] := by
  have strict : oppositeOfLarge.StrictLets := by
    intro b body input part
    simp [oppositeOfLarge, parts, nodes] at part
    obtain ⟨_, _, rfl⟩ := part
    rfl
  exact ⟨evaluation_inOrder strict _ _ _, by decide +kernel, by decide⟩

end Program

end FieldExpr
