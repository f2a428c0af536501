import FieldExpr.Proofs.Evaluation.Meaning
import FieldExpr.Proofs.Lookup
import FieldExpr.Proofs.Program.Deferring

/-!
# What programs mean, and how deep they nest

The meaning of a program together with the budget that its evaluation needs if
nothing is remembered: the depth below which its outcome cannot be reached
when every demand of a deferred program starts that program afresh. A
suspended computation therefore carries its own need, which counts at each
place where it is demanded.

The results are those of `Program.meaning` (`meaning_of_measured`), and a
program of `n` nodes needs a budget of at most `n`, however its lets are used
(`need_measuredOutcome_le`): forcing a cell nests no deeper than the program it
was made from, and that is counted where the binding of the cell is introduced.
Where bindings hold no cells there is nothing to count there, and the depth of
the program is enough (`StrictLets.roomy_depth`).
-/

namespace FieldExpr

/-- What a computation comes to, and the budget that it needs to come to it if
nothing is remembered. -/
structure Measured (α : Type) where
  result : Except EvaluationError α
  need : Nat

namespace Measured

variable {α β : Type}

/-- A result that is reached without entering a node. -/
def lift (result : Except EvaluationError α) : Measured α :=
  ⟨result, 0⟩

/-- One computation and, if it does not fail, another after it, both with
the same budget. -/
def andThen (x : Measured α) (f : α → Measured β) : Measured β :=
  match x.result with
  | .ok a => ⟨(f a).result, max x.need (f a).need⟩
  | .error error => ⟨.error error, x.need⟩

instance : Monad Measured where
  pure a := lift (.ok a)
  bind := andThen

/-- A computation one level deeper. -/
def deeper (x : Measured α) : Measured α :=
  { x with need := x.need + 1 }

@[simp]
theorem result_pure (a : α) : (pure a : Measured α).result = .ok a := rfl

@[simp]
theorem result_lift (result : Except EvaluationError α) :
    (lift result).result = result := rfl

@[simp]
theorem result_deeper (x : Measured α) : x.deeper.result = x.result := rfl

@[simp]
theorem result_bind (x : Measured α) (f : α → Measured β) :
    (x >>= f).result = x.result >>= fun a => (f a).result := by
  obtain ⟨result, need⟩ := x
  cases result <;> rfl

@[simp]
theorem need_pure (a : α) : (pure a : Measured α).need = 0 := rfl

@[simp]
theorem need_lift (result : Except EvaluationError α) :
    (lift result).need = 0 := rfl

@[simp]
theorem need_deeper (x : Measured α) : x.deeper.need = x.need + 1 := rfl

/-- A bound on what two computations need bounds the first, and the second
wherever the first leads to it. -/
theorem need_bind_le_iff {x : Measured α} {f : α → Measured β} {n : Nat} :
    (x >>= f).need ≤ n ↔ x.need ≤ n ∧ ∀ a, x.result = .ok a → (f a).need ≤ n := by
  obtain ⟨result, need⟩ := x
  cases result with
  | error error =>
    change need ≤ n ↔ _
    simp
  | ok a =>
    change max need (f a).need ≤ n ↔ _
    rw [Nat.max_le]
    simp

end Measured

/-- What a slot will come to: a value, or a suspended computation and what
demanding it needs. -/
inductive Prospect where
  | ready (value : Value)
  | suspended (computation : Measured Value)

namespace Prospect

/-- The value of a slot. A suspended computation is demanded one level deeper. -/
def demand : Prospect → Measured Value
  | .ready value => pure value
  | .suspended computation => computation.deeper

/-- The meaning of a slot. -/
def meaning : Prospect → Meaning
  | .ready value => .ready value
  | .suspended computation => .suspended computation.result

/-- What demanding a slot needs beside the level it stands on. -/
def need : Prospect → Nat
  | .ready _ => 0
  | .suspended computation => computation.need

theorem result_demand (prospect : Prospect) :
    prospect.demand.result = prospect.meaning.demand := by
  cases prospect <;> rfl

theorem need_le_demand (prospect : Prospect) :
    prospect.need ≤ prospect.demand.need := by
  cases prospect with
  | ready v => exact Nat.le_refl _
  | suspended computation => exact Nat.le_succ _

theorem need_demand_le (prospect : Prospect) :
    prospect.demand.need ≤ prospect.need + 1 := by
  cases prospect with
  | ready v => exact Nat.zero_le _
  | suspended computation => exact Nat.le_refl _

end Prospect

/-- The prospects of a context's bindings. -/
def Context.prospects (context : Context) : List (Binding × Prospect) :=
  context.bindings.map fun (b, v) => (b, .ready v)

namespace Program

/-- What an operand comes to: a literal is rebuilt in its shape without
being entered. -/
def measuredOperand (value : Measured Value) : Program → Measured Value
  | .literal v shape => .lift (Rule.literal shape v)
  | _ => value

/-- The meaning and the need of a program, where `env` has the prospects of
bindings, the newest first. -/
def measured (settings : Settings) :
    Program → List (Binding × Prospect) → Value → Measured Prospect
  | .identity, _, subject => .deeper (return .ready subject)
  | .lookup b, env, _ =>
    .deeper (.lift (Rule.orFail (.unboundBinding b) (env.lookup b)))
  | .literal v _, _, _ => .deeper (return .ready v)
  | .immediate inner, env, subject => .deeper do
    return .ready (← inner.measured settings env subject >>= Prospect.demand)
  | .defer inner, env, subject =>
    .deeper (return .suspended (inner.measured settings env subject >>=
      Prospect.demand))
  | .functionDef b body input, env, subject => .deeper do
    let prospect ← input.measured settings env subject
    body.measured settings ((b, prospect) :: env) subject
  | .pipe left right, env, subject => .deeper do
    let v ← left.measured settings env subject >>= Prospect.demand
    right.measured settings env v
  | .equalTo tag left right, env, subject => .deeper do
    let l ← left.measuredOperand (left.measured settings env subject >>=
      Prospect.demand)
    let r ← right.measuredOperand (right.measured settings env subject >>=
      Prospect.demand)
    return .ready (.boolean (← .lift (Rule.equalTo tag l r)))
  | .binaryMath op tag left right, env, subject => .deeper do
    let l ← left.measuredOperand (left.measured settings env subject >>=
      Prospect.demand)
    let r ← right.measuredOperand (right.measured settings env subject >>=
      Prospect.demand)
    return .ready (← .lift (Rule.binaryMath settings op tag l r))
  | .unaryMath op tag operand, env, subject => .deeper do
    let v ← operand.measuredOperand (operand.measured settings env subject >>=
      Prospect.demand)
    return .ready (← .lift (Rule.unaryMath op tag v))
  | .binaryLogical op left right, env, subject => .deeper do
    let l ← left.measured settings env subject >>= Prospect.demand >>= fun v =>
      .lift (Rule.condition (Rule.connective op) v)
    if Rule.decides op l then return .ready (.boolean l)
    else
      let r ← right.measured settings env subject >>= Prospect.demand >>= fun v =>
        .lift (Rule.condition (Rule.connective op) v)
      return .ready (.boolean r)
  | .not operand, env, subject => .deeper do
    let b ← operand.measured settings env subject >>= Prospect.demand >>= fun v =>
      .lift (Rule.condition .not v)
    return .ready (.boolean !b)
  | .diverge condition onTrue onFalse, env, subject => .deeper do
    let choice ← condition.measured settings env subject >>= Prospect.demand >>=
        fun v =>
      .lift (Rule.condition .diverge v)
    if choice then return .ready (← onTrue.measured settings env subject >>=
      Prospect.demand)
    else return .ready (← onFalse.measured settings env subject >>= Prospect.demand)
  | .tupleGetIndex tuple index, env, subject => .deeper do
    let v ← tuple.measured settings env subject >>= Prospect.demand
    return .ready (← .lift (Rule.select index v))

/-- What demanding a program comes to, and needs. -/
def measuredOutcome (settings : Settings) (p : Program)
    (env : List (Binding × Prospect)) (subject : Value) : Measured Value :=
  p.measured settings env subject >>= Prospect.demand

/-- Every program needs budget for its own node. -/
theorem need_measured_pos (settings : Settings) (p : Program)
    (env : List (Binding × Prospect)) (subject : Value) :
    0 < (p.measured settings env subject).need := by
  cases p <;> exact Nat.succ_pos _

theorem need_measuredOutcome_pos (settings : Settings) (p : Program)
    (env : List (Binding × Prospect)) (subject : Value) :
    0 < (p.measuredOutcome settings env subject).need :=
  Nat.lt_of_lt_of_le (p.need_measured_pos settings env subject)
    (Measured.need_bind_le_iff.mp (Nat.le_refl _)).1

/-! ## The meaning in it -/

/-- The meanings of an environment of prospects. -/
def meanings (env : List (Binding × Prospect)) : List (Binding × Meaning) :=
  env.map fun (b, prospect) => (b, prospect.meaning)

theorem meanings_prospects (context : Context) :
    meanings context.prospects = context.meanings := by
  unfold meanings Context.prospects Context.meanings
  rw [List.map_map]
  rfl

theorem lookup_meanings (env : List (Binding × Prospect)) (b : Binding) :
    (meanings env).lookup b = (env.lookup b).map Prospect.meaning :=
  lookup_map_values Prospect.meaning env b

theorem map_orFail {α β : Type} (f : α → β) (error : EvaluationError)
    (x : Option α) :
    (Rule.orFail error x).map f = Rule.orFail error (x.map f) := by
  cases x <;> rfl

theorem result_measuredOperand (p : Program) (value : Measured Value) :
    (p.measuredOperand value).result = p.operandOr value.result := by
  cases p <;> rfl

/-- A slot that has a meaning comes to what the meaning comes to. -/
theorem demand_result {result : Except EvaluationError Prospect}
    {meaning : Except EvaluationError Meaning}
    (same : result.map Prospect.meaning = meaning) :
    (result >>= fun prospect => prospect.demand.result) = meaning >>=
    Meaning.demand := by
  subst same
  cases result with
  | error error => rfl
  | ok prospect => exact prospect.result_demand

theorem map_bind {α β γ : Type} (f : β → γ) (x : Except EvaluationError α)
    (g : α → Except EvaluationError β) :
    (x >>= g).map f = x >>= fun a => (g a).map f := by
  cases x <;> rfl

/-- What is measured has the meaning of the program. -/
theorem meaning_of_measured (settings : Settings) (p : Program) : ∀ env subject,
    (p.measured settings env subject).result.map Prospect.meaning =
      p.meaning settings (meanings env) subject := by
  induction p with
  | identity => intro env subject; rfl
  | lookup b =>
    intro env subject
    unfold measured meaning
    rw [Measured.result_deeper, Measured.result_lift, map_orFail, lookup_meanings]
  | literal v shape => intro env subject; rfl
  | immediate inner ih =>
    intro env subject
    unfold measured meaning
    rw [Measured.result_deeper, Measured.result_bind, Measured.result_bind,
      demand_result (ih env subject), map_bind]
    rfl
  | defer inner ih =>
    intro env subject
    unfold measured meaning
    rw [← demand_result (ih env subject), ← Measured.result_bind]
    rfl
  | functionDef b body input body_ih input_ih =>
    intro env subject
    unfold measured meaning
    rw [Measured.result_deeper, Measured.result_bind,
      map_bind, ← input_ih env subject]
    cases (input.measured settings env subject).result with
    | error error => rfl
    | ok prospect => exact body_ih ((b, prospect) :: env) subject
  | pipe left right left_ih right_ih =>
    intro env subject
    unfold measured meaning
    rw [Measured.result_deeper, Measured.result_bind, Measured.result_bind,
      map_bind, demand_result (left_ih env subject)]
    congr 1
    funext v
    exact right_ih env v
  | equalTo tag left right left_ih right_ih =>
    intro env subject
    simp only [measured, meaning, Measured.result_deeper, Measured.result_bind,
      Measured.result_lift, map_bind, result_measuredOperand,
      demand_result (left_ih env subject), demand_result (right_ih env subject)]
    rfl
  | binaryMath op tag left right left_ih right_ih =>
    intro env subject
    simp only [measured, meaning, Measured.result_deeper, Measured.result_bind,
      Measured.result_lift, map_bind, result_measuredOperand,
      demand_result (left_ih env subject), demand_result (right_ih env subject)]
    rfl
  | unaryMath op tag operand ih =>
    intro env subject
    simp only [measured, meaning, Measured.result_deeper, Measured.result_bind,
      Measured.result_lift, map_bind, result_measuredOperand,
      demand_result (ih env subject)]
    rfl
  | binaryLogical op left right left_ih right_ih =>
    intro env subject
    simp only [measured, meaning, Measured.result_deeper, Measured.result_bind,
      Measured.result_lift, map_bind, demand_result (left_ih env subject)]
    congr 1
    funext l
    split
    · rfl
    · simp only [Measured.result_bind, Measured.result_lift, map_bind,
        demand_result (right_ih env subject)]
      rfl
  | not operand ih =>
    intro env subject
    simp only [measured, meaning, Measured.result_deeper, Measured.result_bind,
      Measured.result_lift, map_bind, demand_result (ih env subject)]
    rfl
  | diverge condition onTrue onFalse condition_ih onTrue_ih onFalse_ih =>
    intro env subject
    simp only [measured, meaning, Measured.result_deeper, Measured.result_bind,
      Measured.result_lift, map_bind, demand_result (condition_ih env subject)]
    congr 1
    funext choice
    cases choice with
    | true =>
      simp only [if_true, Measured.result_bind, map_bind,
        demand_result (onTrue_ih env subject)]
      rfl
    | false =>
      simp only [Bool.false_eq_true, if_false, Measured.result_bind, map_bind,
        demand_result (onFalse_ih env subject)]
      rfl
  | tupleGetIndex tuple index ih =>
    intro env subject
    simp only [measured, meaning, Measured.result_deeper, Measured.result_bind,
      Measured.result_lift, map_bind, demand_result (ih env subject)]
    rfl

/-- The outcome of a program in a context is in what is measured of it there. -/
theorem result_measuredOutcome (settings : Settings) (p : Program)
    (context : Context) (subject : Value) :
    (p.measuredOutcome settings context.prospects subject).result =
      p.outcome settings context.meanings subject := by
  unfold measuredOutcome outcome
  rw [Measured.result_bind,
    demand_result (p.meaning_of_measured settings context.prospects subject),
    meanings_prospects]

end Program

/-! ## How much a program needs -/

namespace Measured

/-- Neither the slot nor its value needs more than a budget. -/
def Within (n : Nat) (x : Measured Prospect) : Prop :=
  (x >>= Prospect.demand).need ≤ n

variable {α : Type} {n n' : Nat}

theorem Within.mono {x : Measured Prospect} (within : x.Within n)
    (le : n ≤ n') : x.Within n' :=
  Nat.le_trans within le

theorem Within.ready (v : Value) : Within n (pure (.ready v)) :=
  Nat.zero_le n

/-- What stands below a node has all levels but one. -/
theorem Within.below {x : Measured Prospect} (lt : n < n')
    (within : x.Within n) : x.deeper.Within n' := by
  have ⟨slot, value⟩ := need_bind_le_iff.mp within
  refine need_bind_le_iff.mpr ⟨Nat.lt_of_le_of_lt slot lt, fun prospect found => ?_⟩
  exact Nat.le_trans (value prospect found) (Nat.le_of_lt lt)

theorem Within.bind {x : Measured α} {f : α → Measured Prospect}
    (first : x.need ≤ n) (next : ∀ a, x.result = .ok a → (f a).Within n) :
    (x >>= f).Within n := by
  obtain ⟨result, need⟩ := x
  cases result with
  | error error => exact need_bind_le_iff.mpr ⟨first, fun _ found => by cases found⟩
  | ok a =>
    have ⟨slot, value⟩ := need_bind_le_iff.mp (next a rfl)
    exact need_bind_le_iff.mpr ⟨Nat.max_le.mpr ⟨first, slot⟩, value⟩

/-- A value that is computed within a budget is a slot within it. -/
theorem Within.bindReady {x : Measured α} (f : α → Value) (need : x.need ≤ n) :
    Within n (do return .ready (f (← x))) :=
  .bind need fun _ _ => .ready _

/-- The slot, if there is one, needs no more than a budget beside the level
it stands on. -/
def SlotWithin (n : Nat) (x : Measured Prospect) : Prop :=
  ∀ prospect, x.result = .ok prospect → prospect.need ≤ n

theorem SlotWithin.ready (v : Value) : SlotWithin n (pure (.ready v)) := by
  intro prospect found
  cases found
  exact Nat.zero_le n

theorem SlotWithin.bind {x : Measured α} {f : α → Measured Prospect}
    (next : ∀ a, x.result = .ok a → (f a).SlotWithin n) :
    (x >>= f).SlotWithin n := by
  intro prospect found
  rw [result_bind] at found
  cases result : x.result with
  | error e =>
    rw [result] at found
    cases found
  | ok a =>
    rw [result] at found
    exact next a result prospect found

end Measured

namespace Program

variable {settings : Settings} {env : List (Binding × Prospect)} {bound n : Nat}

theorem need_measuredOperand_le {p : Program} {value : Measured Value}
    (need : value.need ≤ n) :
    (p.measuredOperand value).need ≤ n := by
  cases p with
  | literal v shape => exact Nat.zero_le n
  | _ => exact need

theorem need_condition_le {x : Measured Value} (operator : Operator)
    (need : x.need ≤ n) :
    (x >>= fun v => .lift (Rule.condition operator v)).need ≤ n :=
  Measured.need_bind_le_iff.mpr ⟨need, fun _ _ => Nat.zero_le n⟩

theorem need_lookup_le (bounded : ∀ entry ∈ env, entry.2.need ≤ bound)
    {b : Binding} {prospect : Prospect} (found : env.lookup b = some prospect) :
    prospect.need ≤ bound :=
  bounded (b, prospect) (mem_of_lookup found)

theorem lookup_of_orFail {b : Binding} {error : EvaluationError}
    {prospect : Prospect}
    (found : Rule.orFail error (env.lookup b) = .ok prospect) :
    env.lookup b = some prospect := by
  cases stored : env.lookup b with
  | none =>
    rw [stored] at found
    cases found
  | some other =>
    rw [stored] at found
    cases found
    rfl

/-- A settled program comes to a slot that needs no more than its bindings do. -/
theorem Settled.slotWithin {p : Program} (settled : p.Settled) :
    ∀ {env : List (Binding × Prospect)} {subject : Value},
    (∀ entry ∈ env, entry.2.need ≤ bound) →
    (p.measured settings env subject).SlotWithin bound := by
  induction p with
  | identity => exact fun _ => .ready _
  | lookup b =>
    exact fun bounded prospect found =>
      need_lookup_le bounded (lookup_of_orFail found)
  | literal v shape => exact fun _ => .ready v
  | immediate inner ih => exact fun _ => .bind fun v _ => .ready v
  | defer inner ih => cases settled.ends
  | functionDef b body input body_ih input_ih =>
    intro env subject bounded
    refine .bind fun prospect found => body_ih settled.body fun entry mem => ?_
    rcases List.mem_cons.mp mem with same | mem
    · subst same
      exact input_ih settled.strictLets.input bounded prospect found
    · exact bounded entry mem
  | pipe left right left_ih right_ih =>
    exact fun bounded => .bind fun v _ => right_ih settled.right bounded
  | equalTo tag left right left_ih right_ih =>
    exact fun _ => .bind fun l _ => .bind fun r _ => .bind fun truth _ => .ready _
  | binaryMath op tag left right left_ih right_ih =>
    exact fun _ => .bind fun l _ => .bind fun r _ => .bind fun v _ => .ready v
  | unaryMath op tag operand ih =>
    exact fun _ => .bind fun v _ => .bind fun w _ => .ready w
  | binaryLogical op left right left_ih right_ih =>
    refine fun _ => .bind fun l _ => ?_
    split
    · exact .ready _
    · exact .bind fun r _ => .ready _
  | not operand ih => exact fun _ => .bind fun truth _ => .ready _
  | diverge condition onTrue onFalse condition_ih onTrue_ih onFalse_ih =>
    refine fun _ => .bind fun choice _ => ?_
    cases choice with
    | true => exact .bind fun v _ => .ready v
    | false => exact .bind fun v _ => .ready v
  | tupleGetIndex tuple index ih =>
    exact fun _ => .bind fun v _ => .bind fun w _ => .ready w

/-- A size that evaluation keeps within: every child is smaller than its parent,
and a definition whose input may leave something suspended has room for what
that needs below its body. -/
structure Roomy (size : Program → Nat) (p : Program) : Prop where
  pos : ∀ q, 0 < size q
  child_lt : ∀ {q c : Program}, c ∈ q.children → size c < size q
  room : ∀ b body input, .functionDef b body input ∈ p.parts →
    input.Settled ∨ size body + size input < size (.functionDef b body input)

theorem Roomy.child {size : Program → Nat} {p c : Program}
    (roomy : p.Roomy size) (child : c ∈ p.children) :
    c.Roomy size :=
  ⟨roomy.pos, roomy.child_lt, fun b body input part =>
    roomy.room b body input (parts_subset_of_child child part)⟩

/-- A program needs at most one level for each unit of its size, beside what its
bindings need. -/
theorem within_size (settings : Settings) {size : Program → Nat} (p : Program) :
    p.Roomy size →
    ∀ (env : List (Binding × Prospect)) (subject : Value) (bound : Nat),
      (∀ entry ∈ env, entry.2.need ≤ bound) →
    (p.measured settings env subject).Within (size p + bound) := by
  induction p using byChildren with
  | step p ih =>
    intro roomy env subject bound bounded
    have pos := roomy.pos p
    have below : size p - 1 + bound < size p + bound := by omega
    have part : ∀ c ∈ p.children, ∀ v, (c.measured settings env v).Within
        (size p - 1 + bound) := by
      intro c child v
      have lt := roomy.child_lt child
      exact (ih c child (roomy.child child) env v bound bounded).mono (by omega)
    cases p with
    | identity => exact .below below (.ready subject)
    | lookup b =>
      refine Measured.need_bind_le_iff.mpr
        ⟨Nat.le_trans pos (Nat.le_add_right ..), fun prospect found => ?_⟩
      have need := prospect.need_demand_le
      have stored := need_lookup_le bounded (lookup_of_orFail found)
      omega
    | literal v shape => exact .below below (.ready v)
    | immediate inner =>
      exact .below below (.bindReady id (part inner (by simp [children]) subject))
    | defer inner =>
      have inside := part inner (by simp [children]) subject
      refine Measured.need_bind_le_iff.mpr
        ⟨Nat.le_trans pos (Nat.le_add_right ..), fun prospect found => ?_⟩
      cases found
      exact Nat.le_trans (Nat.succ_le_succ inside) (by omega)
    | functionDef b body input =>
      have inputs :=
        ih input (by simp [children]) (roomy.child (by simp [children])) env
          subject bound bounded
      obtain ⟨slot, value⟩ := Measured.need_bind_le_iff.mp inputs
      have inputBelow :=
        roomy.child_lt
          (show input ∈ (functionDef b body input).children by simp [children])
      have bodyBelow :=
        roomy.child_lt
          (show body ∈ (functionDef b body input).children by simp [children])
      -- The body may demand its binding, so it has to allow for what that needs.
      have bodies : ∀ {prospect more}, prospect.need ≤ more → bound ≤ more →
          (body.measured settings ((b, prospect) :: env) subject).Within
            (size body + more) := by
        intro prospect more need le
        refine ih body (by simp [children]) (roomy.child (by simp [children])) _
          subject more fun entry mem => ?_
        rcases List.mem_cons.mp mem with same | mem
        · subst same
          exact need
        · exact Nat.le_trans (bounded entry mem) le
      refine .below below
        (.bind (Nat.le_trans slot (by omega)) fun prospect found => ?_)
      rcases roomy.room b body input (mem_parts_self _) with settled | room
      · have need := settled.slotWithin bounded prospect found
        exact (bodies need (Nat.le_refl bound)).mono (by omega)
      · have need := Nat.le_trans prospect.need_le_demand (value prospect found)
        exact (bodies need (Nat.le_add_left ..)).mono (by omega)
    | pipe left right =>
      exact .below below (.bind (part left (by simp [children]) subject) fun v _ =>
        part right (by simp [children]) v)
    | equalTo tag left right =>
      have lefts := need_measuredOperand_le (p := left)
        (part left (by simp [children]) subject)
      have rights :=
        need_measuredOperand_le (p := right)
          (part right (by simp [children]) subject)
      exact .below below
        (.bind lefts fun l _ => .bind rights fun r _ =>
          .bindReady .boolean (Nat.zero_le _))
    | binaryMath op tag left right =>
      have lefts := need_measuredOperand_le (p := left)
        (part left (by simp [children]) subject)
      have rights :=
        need_measuredOperand_le (p := right)
          (part right (by simp [children]) subject)
      exact .below below
        (.bind lefts fun l _ => .bind rights fun r _ =>
          .bindReady id (Nat.zero_le _))
    | unaryMath op tag operand =>
      have operands :=
        need_measuredOperand_le (p := operand)
          (part operand (by simp [children]) subject)
      exact .below below (.bind operands fun v _ => .bindReady id (Nat.zero_le _))
    | binaryLogical op left right =>
      have lefts := need_condition_le (Rule.connective op)
        (part left (by simp [children]) subject)
      have rights :=
        need_condition_le (Rule.connective op)
          (part right (by simp [children]) subject)
      refine .below below (.bind lefts fun l _ => ?_)
      split
      · exact .ready _
      · exact .bindReady .boolean rights
    | not operand =>
      have operands :=
        need_condition_le .not (part operand (by simp [children]) subject)
      exact .below below (.bindReady (fun b => .boolean !b) operands)
    | diverge condition onTrue onFalse =>
      have conditions :=
        need_condition_le .diverge (part condition (by simp [children]) subject)
      refine .below below (.bind conditions fun choice _ => ?_)
      cases choice with
      | true => exact .bindReady id (part onTrue (by simp [children]) subject)
      | false => exact .bindReady id (part onFalse (by simp [children]) subject)
    | tupleGetIndex tuple index =>
      exact .below below
        (.bind (part tuple (by simp [children]) subject) fun v _ =>
          .bindReady id (Nat.zero_le _))

/-- What a program in a context needs is at most its size. -/
theorem need_measuredOutcome_le_size (settings : Settings)
    {size : Program → Nat} {p : Program} (roomy : p.Roomy size)
    (context : Context) (subject : Value) :
    (p.measuredOutcome settings context.prospects subject).need ≤ size p := by
  refine p.within_size settings roomy context.prospects subject 0
    fun entry mem => ?_
  obtain ⟨_, _, same⟩ := List.mem_map.mp mem
  subst same
  exact Nat.le_refl 0

/-- Nodes are counted for the input and for the body of a definition. -/
theorem roomy_nodeCount (p : Program) : p.Roomy nodeCount where
  pos q := by
    rw [q.nodeCount_eq]
    omega
  child_lt := nodeCount_lt_of_child
  room b body input _ := .inr (by simp only [nodeCount]; omega)

theorem need_measuredOutcome_le (settings : Settings) (p : Program)
    (context : Context) (subject : Value) :
    (p.measuredOutcome settings context.prospects subject).need ≤ p.nodeCount :=
  need_measuredOutcome_le_size settings p.roomy_nodeCount context subject

/-- Depth is enough where no binding holds anything suspended. -/
theorem StrictLets.roomy_depth {p : Program} (strict : p.StrictLets) :
    p.Roomy depth where
  pos q := by cases q <;> simp only [depth] <;> omega
  child_lt := depth_lt_of_child
  room b body input part := .inl (strict.part part).input

end Program

end FieldExpr
