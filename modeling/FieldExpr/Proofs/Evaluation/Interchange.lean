import FieldExpr.Proofs.Evaluation.Abreast
import FieldExpr.Proofs.Program.Matching

/-!
# Programs in place of the same programs

Evaluation does not tell a program from one that is the same, but for one thing:
selection by position follows the order of a record's fields, which equality
ignores. Two programs that are the same, evaluated abreast, each do what they do
alone, for as long as no element is read that is not the same on the two sides
(`ends_abreast`).
-/

namespace FieldExpr

/-- Two results are values that are the same, or one error. -/
inductive SameResult :
    Except EvaluationError Value → Except EvaluationError Value → Prop
  | ok {v v'} : v.same v' = true → SameResult (.ok v) (.ok v')
  | error (e : EvaluationError) : SameResult (.error e) (.error e)

/-- The values of a context have one field for each name in every record. -/
def Context.WellFormed (context : Context) : Prop :=
  ∀ entry ∈ context.bindings, entry.2.WellFormed

/-! ## Rules on alike values -/

/-- Two results are related, or one error. -/
inductive Agree {α β : Type} (R : α → β → Prop) :
    Except EvaluationError α → Except EvaluationError β → Prop
  | ok {a b} : R a b → Agree R (.ok a) (.ok b)
  | error (e : EvaluationError) : Agree R (.error e) (.error e)

namespace Agree

variable {α β : Type} {R : α → β → Prop}

theorem orFail {x : Option α} {y : Option β} (related : Option.Rel R x y)
    (e : EvaluationError) : Agree R (Rule.orFail e x) (Rule.orFail e y) := by
  cases related with
  | none => exact .error e
  | some related => exact .ok related

variable {ordered : Prop} {v v' w w' : Value}

theorem literal (shape : Shape) (alike : Value.Alike ordered v v') :
    Agree (Value.Alike ordered) (Rule.literal shape v) (Rule.literal shape v') := by
  unfold Rule.literal
  rw [Value.kind_eq_of_same alike.same]
  exact orFail (alike.rebuild? shape) _

theorem condition (operator : Operator) (alike : Value.Alike ordered v v') :
    Agree Eq (Rule.condition operator v) (Rule.condition operator v') := by
  unfold Rule.condition Run.unsupported
  rw [List.map_singleton, List.map_singleton, Value.kind_eq_of_same alike.same,
    Value.asBoolean?_eq_of_same alike.same]
  cases v'.asBoolean? with
  | none => exact .error _
  | some b => exact .ok rfl

theorem equalTo (tag : EqualityTag) (left : Value.Alike ordered v v')
    (right : Value.Alike ordered w w') :
    Agree Eq (Rule.equalTo tag v w) (Rule.equalTo tag v' w') := by
  unfold Rule.equalTo Run.unsupported
  rw [Value.equals?_eq_of_same tag left.left left.right right.left
    right.right left.same right.same]
  simp only [List.map_cons, List.map_nil, Value.kind_eq_of_same left.same,
    Value.kind_eq_of_same right.same]
  cases tag.equals? v' w' with
  | none => exact .error _
  | some b => exact .ok rfl

theorem orFault (operation : ArithmeticOp) {x y : Except ArithmeticFault Number}
    (same : Number.SameResult x y) :
    Agree (Value.Alike ordered) (Rule.orFault operation x)
      (Rule.orFault operation y) := by
  cases same with
  | ok same => exact .ok (.ofNumber same)
  | error fault => exact .error _

theorem arithmetic (settings : Settings) (op : BinaryMathOp) {l l' r r' : Number}
    (left : l.Same l') (right : r.Same r') :
    Agree (Value.Alike ordered) (Rule.arithmetic settings op l r)
      (Rule.arithmetic settings op l' r') := by
  cases op with
  | add => exact orFault _ (Number.add_sameResult left right)
  | multiply => exact orFault _ (Number.multiply_sameResult left right)
  | divide => exact orFault _ (Number.divide_sameResult _ left right)
  | modulo => exact orFault _ (Number.modulo_sameResult left right)
  | greaterThan =>
    refine .ok ?_
    rw [Number.compare_eq_of_same left right]
    exact .refl ordered trivial
  | greaterThanEqual =>
    refine .ok ?_
    rw [Number.compare_eq_of_same left right]
    exact .refl ordered trivial

theorem binaryMath (settings : Settings) (op : BinaryMathOp) (tag : NumericTag)
    (left : Value.Alike ordered v v') (right : Value.Alike ordered w w') :
    Agree (Value.Alike ordered) (Rule.binaryMath settings op tag v w)
      (Rule.binaryMath settings op tag v' w') := by
  have first := Value.read?_same tag left.same
  have second := Value.read?_same tag right.same
  unfold Rule.binaryMath Run.unsupported
  simp only [List.map_cons, List.map_nil, Value.kind_eq_of_same left.same,
    Value.kind_eq_of_same right.same]
  generalize tag.read? v = a at first
  generalize tag.read? v' = a' at first
  generalize tag.read? w = b at second
  generalize tag.read? w' = b' at second
  cases first with
  | none => exact .error _
  | some first =>
    cases second with
    | none => exact .error _
    | some second => exact arithmetic settings op first second

theorem unaryMath (op : UnaryMathOp) (tag : NumericTag)
    (alike : Value.Alike ordered v v') :
    Agree (Value.Alike ordered) (Rule.unaryMath op tag v)
      (Rule.unaryMath op tag v') := by
  have read := Value.read?_same tag alike.same
  cases op
  unfold Rule.unaryMath Run.unsupported
  rw [List.map_singleton, List.map_singleton, Value.kind_eq_of_same alike.same]
  generalize tag.read? v = n at read
  generalize tag.read? v' = n' at read
  cases read with
  | none => exact .error _
  | some same => exact orFault _ (Number.negate_sameResult same)

theorem select (index : UInt64) (alike : Value.Alike ordered v v') :
    Agree (Value.Taken ordered) (Rule.select index v) (Rule.select index v') := by
  unfold Rule.select Run.unsupported
  rw [List.map_singleton, List.map_singleton, Value.kind_eq_of_same alike.same,
    Value.size?_eq_of_same alike.same]
  cases v'.size? with
  | none => exact .error _
  | some size => exact orFail (alike.element? index.toNat) _

end Agree

/-! ## Alone and abreast -/

/-- What stands in one place, abreast and on each side alone. A split stands for
whatever the sides have, but there is none where the literals are `ordered`. -/
inductive Both.Holds (ordered : Prop) : Both → Value → Value → Prop
  | values {v v'} : Value.Alike ordered v v' → Holds ordered (.values v v') v v'
  | split {v v'} : ¬ ordered → Holds ordered .split v v'

theorem Both.Holds.refl (ordered : Prop) {v : Value} (wellFormed : v.WellFormed) :
    Both.Holds ordered (.values v v) v v :=
  .values (.refl ordered wellFormed)

theorem Both.Holds.ofElements {ordered : Prop} {w w' : Value}
    (taken : w.Taken ordered w') :
    (Both.ofElements w w').Holds ordered w w' := by
  unfold Both.ofElements
  rcases taken with alike | ⟨unordered, apart⟩
  · rw [if_pos alike.same]
    exact .values alike
  · rw [if_neg (Bool.eq_false_iff.mp apart)]
    exact .split unordered

namespace Abreast

variable (ordered : Prop) {α β γ δ ε ζ : Type}

inductive Slots : Slot → FieldExpr.Slot → FieldExpr.Slot → Prop
  | ready {b v v'} : Both.Holds ordered b v v' →
    Slots (.ready b) (.ready v) (.ready v')
  | deferred (number : Nat) : Slots (.deferred number) (.deferred number)
    (.deferred number)

inductive Scopes : Scope → FieldExpr.Scope → FieldExpr.Scope → Prop
  | nil : Scopes [] [] []
  | cons {b slot left right scope lefts rights} : Slots ordered slot left right →
    Scopes scope lefts rights →
    Scopes ((b, slot) :: scope) ((b, left) :: lefts) ((b, right) :: rights)

/-- Closures of parts that match. Their positions, which only a log tells,
do not matter. -/
structure Closures (c : Closure) (left right : FieldExpr.Closure) : Prop where
  left_eq : left.program = c.left
  right_eq : right.program = c.right
  matching : c.left.Matches (Value.Alike ordered) c.right
  scope : Scopes ordered c.scope left.scope right.scope
  subject : c.subject.Holds ordered left.subject right.subject

/-- Cells that have come to nothing yet, or to values. -/
inductive Cells : Cell → FieldExpr.Cell → FieldExpr.Cell → Prop
  | unforced {c left right} : Closures ordered c left right →
    Cells ⟨c, none⟩ ⟨left, none⟩ ⟨right, none⟩
  | forced {c left right b v v'} : Closures ordered c left right →
    b.Holds ordered v v' →
    Cells ⟨c, some b⟩ ⟨left, some (.ok v)⟩ ⟨right, some (.ok v')⟩

structure Machines (cells : Array Cell) (m m' : Machine) : Prop where
  left_size : m.cells.size = cells.size
  right_size : m'.cells.size = cells.size
  cells : ∀ (number : Nat) (cell : Cell), cells[number]? = some cell → ∃ left right,
    m.cells[number]? = some left ∧ m'.cells[number]? = some right ∧
      Cells ordered cell left right

/-- What runs abreast and alone come to. -/
inductive Ends (R : α → β → γ → Prop) : Except Halt α × Array Cell →
    Except EvaluationError β × Machine → Except EvaluationError γ × Machine → Prop
  | ok {a b c cells m m'} : R a b c → Machines ordered cells m m' →
    Ends R (.ok a, cells) (.ok b, m) (.ok c, m')
  | failed (e : EvaluationError) {cells m m'} :
    Ends R (.error (.failed e), cells) (.error e, m) (.error e, m')
  | splitRead {cells y z} : ¬ ordered → Ends R (.error .splitRead, cells) y z

/-- A run abreast does what its sides do alone. -/
def Runs (R : α → β → γ → Prop) (x : Run α) (y : FieldExpr.Run β)
    (z : FieldExpr.Run γ) : Prop :=
  ∀ cells m m', Machines ordered cells m m' →
    Ends ordered R (x.run cells) (y.on m) (z.on m')

variable {ordered}

namespace Runs

variable {R : α → β → γ → Prop} {S : δ → ε → ζ → Prop}

theorem pure {a : α} {b : β} {c : γ} (related : R a b c) :
    Runs ordered R (Pure.pure a) (Pure.pure b) (Pure.pure c) := by
  intro cells m m' machines
  exact .ok related machines

theorem bind {x : Run α} {y : FieldExpr.Run β} {z : FieldExpr.Run γ} {f : α → Run δ}
    {g : β → FieldExpr.Run ε} {h : γ → FieldExpr.Run ζ}
    (first : Runs ordered R x y z)
    (next : ∀ a b c, R a b c → Runs ordered S (f a) (g b) (h c)) :
    Runs ordered S (x >>= f) (y >>= g) (z >>= h) := by
  intro cells m m' machines
  have ends := first cells m m' machines
  rw [Run.run_bind, FieldExpr.Run.on_bind, FieldExpr.Run.on_bind]
  generalize x.run cells = abreast at ends
  generalize y.on m = left at ends
  generalize z.on m' = right at ends
  cases ends with
  | ok related machines => exact next _ _ _ related _ _ _ machines
  | failed e => exact .failed e
  | splitRead unordered => exact .splitRead unordered

/-- What is read is a value of each side, or the run abreast halts. -/
theorem read {b : Both} {v v' : Value} {f : Value × Value → Run δ}
    {y : FieldExpr.Run ε} {z : FieldExpr.Run ζ} (holds : b.Holds ordered v v')
    (next : Value.Alike ordered v v' → Runs ordered S (f (v, v')) y z) :
    Runs ordered S (Run.read b >>= f) y z := by
  cases holds with
  | values alike => exact next alike
  | split unordered =>
    intro cells m m' _
    exact .splitRead unordered

/-- A rule that agrees on the two sides gives a result of each, or fails abreast. -/
theorem sides {x x' : Except EvaluationError α} {T : α → α → Prop}
    {together : α → α → β} {R : β → α → α → Prop} (agree : Agree T x x')
    (holds : ∀ a a', T a a' → R (together a a') a a') :
    Runs ordered R (Run.sides together x x') (FieldExpr.Run.lift x)
      (FieldExpr.Run.lift x') := by
  intro cells m m' machines
  cases agree with
  | ok related => exact .ok (holds _ _ related) machines
  | error e => exact .failed e

theorem values {x x' : Except EvaluationError Value}
    (agree : Agree (Value.Alike ordered) x x') :
    Runs ordered (Both.Holds ordered) (Run.sides .values x x')
      (FieldExpr.Run.lift x) (FieldExpr.Run.lift x') :=
  .sides agree fun _ _ => .values

theorem truth {x x' : Except EvaluationError Bool} (agree : Agree Eq x x') :
    Runs ordered (fun b left right => b = left ∧ b = right) (Run.truth x x')
      (FieldExpr.Run.lift x) (FieldExpr.Run.lift x') :=
  .sides agree fun _ _ same => ⟨rfl, same⟩

theorem ready {x : Run Both} {y z : FieldExpr.Run Value}
    (runs : Runs ordered (Both.Holds ordered) x y z) :
    Runs ordered (Slots ordered) (do return .ready (← x)) (do return .ready (← y))
      (do return .ready (← z)) :=
  .bind runs fun _ _ _ holds => .pure (.ready holds)

theorem suspend {c : Closure} {left right : FieldExpr.Closure}
    (closures : Closures ordered c left right) :
    Runs ordered (Slots ordered) (Run.suspend c) (FieldExpr.Run.suspend left)
      (FieldExpr.Run.suspend right) := by
  intro cells m m' machines
  rw [FieldExpr.Run.on_suspend, FieldExpr.Run.on_suspend, machines.left_size,
    machines.right_size]
  refine .ok (.deferred _) ⟨?_, ?_, fun number cell found => ?_⟩
  · simp [machines.left_size]
  · simp [machines.right_size]
  · rw [Array.getElem?_push, machines.left_size]
    rw [Array.getElem?_push, machines.right_size]
    rw [Array.getElem?_push] at found
    split at found
    · rename_i new
      cases found
      rw [if_pos new, if_pos new]
      exact ⟨_, _, rfl, rfl, .unforced closures⟩
    · rename_i old
      rw [if_neg old, if_neg old]
      exact machines.cells number cell found

/-- What a cell came to, remembered abreast and alone. -/
theorem remember {cells : Array Cell} {m m' : Machine} {b : Both} {v v' : Value}
    (machines : Machines ordered cells m m') (number : Nat)
    (holds : b.Holds ordered v v') :
    Machines ordered (Run.remember cells number b)
      (FieldExpr.Run.remember m number (.ok v))
      (FieldExpr.Run.remember m' number (.ok v')) := by
  refine ⟨?_, ?_, fun other cell found => ?_⟩
  · simp [Run.remember, FieldExpr.Run.remember, machines.left_size]
  · simp [Run.remember, FieldExpr.Run.remember, machines.right_size]
  · simp only [Run.remember, FieldExpr.Run.remember, Array.getElem?_modify]
      at found ⊢
    split at found
    · rename_i same
      rw [if_pos same, if_pos same]
      obtain ⟨old, stored, rfl⟩ := Option.map_eq_some_iff.mp found
      obtain ⟨left, right, first, second, alike⟩ := machines.cells other old stored
      rw [first, second]
      refine ⟨_, _, rfl, rfl, ?_⟩
      cases alike with
      | unforced closures | forced closures _ => exact .forced closures holds
    · rename_i different
      rw [if_neg different, if_neg different]
      exact machines.cells other cell found

/-- Entering a node only adds to what a machine has visited. -/
theorem entered {x : Run α} {y : FieldExpr.Run β} {z : FieldExpr.Run γ}
    (left right : FieldExpr.Closure) (depth : Nat) (runs : Runs ordered R x y z) :
    Runs ordered R x (FieldExpr.Run.enter left depth >>= fun _ => y)
      (FieldExpr.Run.enter right depth >>= fun _ => z) := by
  intro cells m m' machines
  rw [FieldExpr.Run.on_bind, FieldExpr.Run.on_bind, FieldExpr.Run.on_enter,
    FieldExpr.Run.on_enter]
  exact runs cells _ _ ⟨machines.left_size, machines.right_size, machines.cells⟩

/-- Forcing cells of one number: all remember what they came to, or all take it
and remember. -/
theorem force {demand : Closure → Run Both}
    {demand' : FieldExpr.Closure → FieldExpr.Run Value}
    (demands : ∀ c left right, Closures ordered c left right →
      Runs ordered (Both.Holds ordered) (demand c) (demand' left) (demand' right))
    (number : Nat) :
    Runs ordered (Both.Holds ordered) (Run.force demand number)
      (FieldExpr.Run.force demand' number)
      (FieldExpr.Run.force demand' number) := by
  intro cells m m' machines
  cases found : cells[number]? with
  | none =>
    have past : cells.size ≤ number := Array.getElem?_eq_none_iff.mp found
    have first : m.cells[number]? = none :=
      Array.getElem?_eq_none_iff.mpr (machines.left_size ▸ past)
    have second : m'.cells[number]? = none :=
      Array.getElem?_eq_none_iff.mpr (machines.right_size ▸ past)
    rw [Run.run_force_absent found, FieldExpr.Run.on_force_absent first,
      FieldExpr.Run.on_force_absent second]
    exact .ok (.refl ordered trivial) machines
  | some cell =>
    obtain ⟨left, right, first, second, alike⟩ := machines.cells number cell found
    cases alike with
    | forced closures holds =>
      rw [Run.run_force_known found rfl, FieldExpr.Run.on_force_known first rfl,
        FieldExpr.Run.on_force_known second rfl]
      exact .ok holds machines
    | @unforced c left right closures =>
      rw [Run.run_force_open found rfl, FieldExpr.Run.on_force_open first rfl,
        FieldExpr.Run.on_force_open second rfl]
      have ends := demands c left right closures cells m m' machines
      generalize (demand c).run cells = abreast at ends
      generalize (demand' left).on m = left at ends
      generalize (demand' right).on m' = right at ends
      cases ends with
      | ok holds machines => exact .ok holds (remember machines number holds)
      | failed e => exact .failed e
      | splitRead unordered => exact .splitRead unordered

end Runs

/-- A binding holds slots that stand for each other, or it is unbound
abreast and alone. -/
theorem Scopes.runs_lookup {scope : Scope} {lefts rights : FieldExpr.Scope}
    (scopes : Scopes ordered scope lefts rights) (b : Binding) :
    Runs ordered (Slots ordered) (Run.orThrow (.unboundBinding b) (scope.lookup b))
      (FieldExpr.Run.lift (Rule.orFail (.unboundBinding b) (lefts.lookup b)))
      (FieldExpr.Run.lift (Rule.orFail (.unboundBinding b) (rights.lookup b))) := by
  induction scopes with
  | nil =>
    intro cells m m' _
    exact .failed _
  | @cons a slot left right _ _ _ slots _ ih =>
    rw [List.lookup_cons, List.lookup_cons, List.lookup_cons]
    cases b == a with
    | true => exact .pure slots
    | false => exact ih

/-! ## Nodes -/

section

variable (settings : Settings) {eval : Closure → Run Slot}
  {demand : Closure → Run Both}
  {eval' : FieldExpr.Closure → FieldExpr.Run FieldExpr.Slot}
  {demand' : FieldExpr.Closure → FieldExpr.Run Value}
  (evals : ∀ c left right, Closures ordered c left right →
    Runs ordered (Slots ordered) (eval c) (eval' left) (eval' right))
  (demands : ∀ c left right, Closures ordered c left right →
    Runs ordered (Both.Holds ordered) (demand c) (demand' left) (demand' right))
  {c : Closure} {left right : FieldExpr.Closure}

include demands

theorem runs_operand (closures : Closures ordered c left right) :
    Runs ordered (Both.Holds ordered) (Run.operand demand c)
      (FieldExpr.Run.operand demand' left)
      (FieldExpr.Run.operand demand' right) := by
  obtain ⟨program, program', scope, subject⟩ := c
  obtain ⟨_, position, lefts, subject₁⟩ := left
  obtain ⟨_, position', rights, subject₂⟩ := right
  have demanded := demands _ _ _ closures
  obtain ⟨rfl, rfl, matching, _, _⟩ := closures
  dsimp only at matching
  cases matching with
  | literal shape alike =>
    rw [FieldExpr.Run.operand_literal, FieldExpr.Run.operand_literal]
    exact .values (.literal shape alike)
  | _ =>
    rw [FieldExpr.Run.operand_of_not_literal _ (by intro v s h; cases h),
      FieldExpr.Run.operand_of_not_literal _ (by intro v s h; cases h)]
    exact demanded

theorem runs_condition (operator : Operator)
    (closures : Closures ordered c left right) :
    Runs ordered (fun b left right => b = left ∧ b = right)
      (Run.condition demand operator c)
      (FieldExpr.Run.condition demand' operator left)
      (FieldExpr.Run.condition demand' operator right) := by
  rw [FieldExpr.Run.condition_eq, FieldExpr.Run.condition_eq]
  refine .bind (demands _ _ _ closures) fun b v v' holds => ?_
  exact .read holds fun alike => .truth (.condition operator alike)

include evals

/-- A node abreast does what its sides do alone, if its parts do. -/
theorem runs_node (closures : Closures ordered c left right) :
    Runs ordered (Slots ordered) (Run.node settings eval demand c)
      (FieldExpr.Run.node settings eval' demand' left)
      (FieldExpr.Run.node settings eval' demand' right) := by
  obtain ⟨program, program', scope, subject⟩ := c
  obtain ⟨_, position, lefts, subject₁⟩ := left
  obtain ⟨_, position', rights, subject₂⟩ := right
  obtain ⟨rfl, rfl, matching, scopes, subjects⟩ := closures
  dsimp only at matching scopes subjects
  have part : ∀ {p p' : Program} (number : Nat),
      p.Matches (Value.Alike ordered) p' →
      Closures ordered ⟨p, p', scope, subject⟩
        ⟨p, number :: position, lefts, subject₁⟩
        ⟨p', number :: position', rights, subject₂⟩ :=
    fun _ matching => ⟨rfl, rfl, matching, scopes, subjects⟩
  have truthful : ∀ b, Slots ordered (.ready (.values (.boolean b) (.boolean b)))
      (.ready (.boolean b)) (.ready (.boolean b)) :=
    fun b => .ready (.refl ordered trivial)
  cases matching with
  | identity => exact .pure (.ready subjects)
  | lookup b =>
    rw [FieldExpr.Run.node_lookup, FieldExpr.Run.node_lookup]
    exact scopes.runs_lookup b
  | literal shape alike => exact .pure (.ready (.values alike))
  | immediate inner => exact .ready (demands _ _ _ (part 0 inner))
  | defer inner => exact .suspend (part 0 inner)
  | functionDef b body input =>
    refine .bind (evals _ _ _ (part 0 input)) fun slot slot₁ slot₂ slots => ?_
    exact evals _ _ _ ⟨rfl, rfl, body, .cons slots scopes, subjects⟩
  | pipe first second =>
    refine .bind (demands _ _ _ (part 0 first)) fun b v v' holds => ?_
    exact evals _ _ _ ⟨rfl, rfl, second, scopes, holds⟩
  | equalTo tag first second =>
    rw [FieldExpr.Run.node_equalTo, FieldExpr.Run.node_equalTo]
    refine .bind (runs_operand demands (part 0 first)) fun l l₁ l₂ lefts => ?_
    refine .bind (runs_operand demands (part 1 second)) fun r r₁ r₂ rights => ?_
    refine .read lefts fun lefts => .read rights fun rights => ?_
    refine .bind (.truth (.equalTo tag lefts rights)) ?_
    rintro b _ _ ⟨rfl, rfl⟩
    exact .pure (truthful b)
  | binaryMath op tag first second =>
    rw [FieldExpr.Run.node_binaryMath, FieldExpr.Run.node_binaryMath]
    refine .bind (runs_operand demands (part 0 first)) fun l l₁ l₂ lefts => ?_
    refine .bind (runs_operand demands (part 1 second)) fun r r₁ r₂ rights => ?_
    refine .read lefts fun lefts => .read rights fun rights => ?_
    exact .ready (.values (.binaryMath settings op tag lefts rights))
  | unaryMath op tag inner =>
    rw [FieldExpr.Run.node_unaryMath, FieldExpr.Run.node_unaryMath]
    refine .bind (runs_operand demands (part 0 inner)) fun b v v' holds => ?_
    exact .read holds fun alike => .ready (.values (.unaryMath op tag alike))
  | binaryLogical op first second =>
    rw [FieldExpr.Run.node_binaryLogical, FieldExpr.Run.node_binaryLogical]
    refine .bind (runs_condition demands _ (part 0 first)) ?_
    rintro l _ _ ⟨rfl, rfl⟩
    show Runs ordered _ (if Rule.decides op l then _ else _)
      (if Rule.decides op l then _ else _) (if Rule.decides op l then _ else _)
    cases Rule.decides op l with
    | true => exact .pure (truthful l)
    | false =>
      refine .bind (runs_condition demands _ (part 1 second)) ?_
      rintro r _ _ ⟨rfl, rfl⟩
      exact .pure (truthful r)
  | not inner =>
    refine .bind (runs_condition demands .not (part 0 inner)) ?_
    rintro b _ _ ⟨rfl, rfl⟩
    exact .pure (truthful !b)
  | diverge chooser onTrue onFalse =>
    refine .bind (runs_condition demands .diverge (part 0 chooser)) ?_
    rintro choice _ _ ⟨rfl, rfl⟩
    cases choice with
    | true => exact .ready (demands _ _ _ (part 1 onTrue))
    | false => exact .ready (demands _ _ _ (part 2 onFalse))
  | tupleGetIndex index tuple =>
    rw [FieldExpr.Run.node_tupleGetIndex, FieldExpr.Run.node_tupleGetIndex]
    refine .bind (demands _ _ _ (part 0 tuple)) fun b v v' holds =>
      .read holds fun alike => ?_
    exact .ready (.sides (.select index alike) fun _ _ => .ofElements)

end

/-! ## Whole evaluations -/

/-- By induction on the budget: what is evaluated abreast does what its
sides do alone. -/
theorem runs_closures (settings : Settings) (budget : Nat) :
    ∀ (depth : Nat) {c : Closure} {left right : FieldExpr.Closure},
      Closures ordered c left right →
        Runs ordered (Slots ordered) (Run.eval settings budget c)
            (FieldExpr.Run.eval settings budget depth left)
            (FieldExpr.Run.eval settings budget depth right) ∧
          Runs ordered (Both.Holds ordered) (Run.demand settings budget c)
            (FieldExpr.Run.demand settings budget depth left)
            (FieldExpr.Run.demand settings budget depth right) := by
  induction budget with
  | zero =>
    intro depth c left right _
    constructor
    · intro cells m m' _
      exact .failed _
    · intro cells m m' _
      exact .failed _
  | succ budget ih =>
    intro depth c left right closures
    have evals := fun c left right (closures : Closures ordered c left right) =>
      (ih (depth + 1) closures).1
    have demands := fun c left right (closures : Closures ordered c left right) =>
      (ih (depth + 1) closures).2
    have node := runs_node settings evals demands closures
    constructor
    · exact .entered left right depth node
    · refine .entered left right depth (.bind node fun slot slot₁ slot₂ slots => ?_)
      cases slots with
      | ready holds => exact .pure holds
      | deferred number => exact .force demands number

theorem scopes_of_bindings {bindings : List (Binding × Value)}
    (wellFormed : ∀ entry ∈ bindings, entry.2.WellFormed) :
    Scopes ordered
      (bindings.map fun (binding, value) => (binding, .ready (.values value value)))
      (bindings.map fun (binding, value) => (binding, .ready value))
      (bindings.map fun (binding, value) => (binding, .ready value)) := by
  induction bindings with
  | nil => exact .nil
  | cons entry rest ih =>
    obtain ⟨head, tail⟩ := List.forall_mem_cons.mp wellFormed
    exact .cons (.ready (.refl ordered head)) (ih tail)

end Abreast

/-- Two programs that are the same, evaluated abreast, come to the values that
they come to alone, which are the same, or to the error in which both end alone,
or else they read an element that is not the same on the two sides, and do not
list all fields in the same order. -/
theorem Program.abreast_cases {p q : Program} (first : p.WellFormed)
    (second : q.WellFormed) (same : p.same q = true) (config : EngineConfig)
    {context : Context} {subject : Value} (bindings : context.WellFormed)
    (input : subject.WellFormed) :
    (∃ v v', p.abreast q config context subject = .ok (v, v') ∧ v.same v' = true ∧
        p.evaluate config context subject = .ok v ∧
        q.evaluate config context subject = .ok v') ∨
      (∃ e, p.abreast q config context subject = .error (.failed e) ∧
        p.evaluate config context subject = .error e ∧
        q.evaluate config context subject = .error e) ∨
      p.DependsOnOrder q config context subject ∧ ¬ p.InOrder q := by
  have closures :
      Abreast.Closures (p.InOrder q) (Abreast.closure p q context subject)
      (p.closure context subject) (q.closure context subject) :=
    ⟨rfl, rfl, matches_alike first second same, Abreast.scopes_of_bindings bindings,
      .refl _ input⟩
  have runs := (Abreast.runs_closures (Settings.ofConfig config context)
    ((Settings.ofConfig config context).maxDepth + 1) 0 closures).2
  have ends := runs #[] {} {} ⟨rfl, rfl, nofun⟩
  unfold DependsOnOrder abreast evaluate evaluation
  rw [evaluationUnder_eq, evaluationUnder_eq]
  dsimp only
  generalize (Abreast.Run.demand _ _ (Abreast.closure p q context subject)).run
    #[] = abreast at ends ⊢
  generalize (Run.demand _ _ 0 (p.closure context subject)).on {} = left at ends ⊢
  generalize (Run.demand _ _ 0 (q.closure context subject)).on {} = right at ends ⊢
  cases ends with
  | ok holds _ =>
    cases holds with
    | values alike => exact .inl ⟨_, _, rfl, alike.same, rfl, rfl⟩
    | split unordered => exact .inr (.inr ⟨rfl, unordered⟩)
  | failed e => exact .inr (.inl ⟨e, rfl, rfl, rfl⟩)
  | splitRead unordered => exact .inr (.inr ⟨rfl, unordered⟩)

end FieldExpr
