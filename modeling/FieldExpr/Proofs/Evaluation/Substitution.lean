import FieldExpr.Proofs.Evaluation.Adequacy

/-!
# A let is substitution of its value

A definition whose input comes to a value means its body with that value written
in place of the binding. The body may look the binding up behind another
subject, inside a deferred program, as an operand, or for another definition
that hands it on. It makes no difference in any of these places whether a slot
holds the value or a suspended computation that comes to it, or whether a
literal stands there instead: all that is ever seen of a slot is what demanding
it comes to (`Meaning.seen`).
-/

namespace FieldExpr

/-! ## Replacing lookups -/

/-- The bindings that are to be replaced, each with its value. -/
abbrev Replacements := Binding → Option Value

namespace Replacements

/-- One binding is replaced. -/
def only (b : Binding) (v : Value) : Replacements :=
  fun a => if a = b then some v else none

/-- A definition hides its binding from the replacements. -/
def hide (values : Replacements) (b : Binding) : Replacements :=
  fun a => if a = b then none else values a

end Replacements

namespace Program

/-- The program with a literal in place of every free lookup of a binding that
is to be replaced. -/
def inline (values : Replacements) : Program → Program
  | .identity => .identity
  | .lookup b => (values b).elim (.lookup b) fun v => .literal v .any
  | .immediate inner => .immediate (inner.inline values)
  | .defer inner => .defer (inner.inline values)
  | .functionDef b body input =>
    .functionDef b (body.inline (values.hide b)) (input.inline values)
  | .literal v shape => .literal v shape
  | .pipe left right => .pipe (left.inline values) (right.inline values)
  | .equalTo tag left right =>
    .equalTo tag (left.inline values) (right.inline values)
  | .binaryMath op tag left right =>
    .binaryMath op tag (left.inline values) (right.inline values)
  | .unaryMath op tag operand => .unaryMath op tag (operand.inline values)
  | .binaryLogical op left right =>
    .binaryLogical op (left.inline values) (right.inline values)
  | .not operand => .not (operand.inline values)
  | .diverge condition onTrue onFalse =>
    .diverge (condition.inline values) (onTrue.inline values)
      (onFalse.inline values)
  | .tupleGetIndex tuple index => .tupleGetIndex (tuple.inline values) index

/-- A literal takes the place of one node. -/
theorem nodeCount_inline (p : Program) (values : Replacements) :
    (p.inline values).nodeCount = p.nodeCount := by
  induction p generalizing values with
  | lookup b =>
    unfold inline
    cases values b <;> rfl
  | _ => simp only [inline, nodeCount, *]

end Program

/-! ## Meanings that are seen alike -/

/-- Two meanings that come to the same when they are demanded, or one failure in
place of both. -/
inductive SeenAlike :
    Except EvaluationError Meaning → Except EvaluationError Meaning → Prop
  | ok {slot slot' : Meaning} : slot.demand = slot'.demand →
    SeenAlike (.ok slot) (.ok slot')
  | error (e : EvaluationError) : SeenAlike (.error e) (.error e)

namespace SeenAlike

variable {x y : Except EvaluationError Meaning}

theorem refl (x : Except EvaluationError Meaning) : SeenAlike x x := by
  cases x with
  | ok slot => exact .ok rfl
  | error e => exact .error e

theorem demand (alike : SeenAlike x y) :
    x >>= Meaning.demand = y >>= Meaning.demand := by
  cases alike with
  | ok same => exact same
  | error e => rfl

theorem bind {f g : Meaning → Except EvaluationError Meaning}
    (first : SeenAlike x y)
    (next : ∀ slot slot', slot.demand = slot'.demand →
      SeenAlike (f slot) (g slot')) :
    SeenAlike (x >>= f) (y >>= g) := by
  cases first with
  | ok same => exact next _ _ same
  | error e => exact .error e

theorem bindValue (u : Except EvaluationError Value)
    {f g : Value → Except EvaluationError Meaning}
    (next : ∀ v, SeenAlike (f v) (g v)) : SeenAlike (u >>= f) (u >>= g) := by
  cases u with
  | ok v => exact next v
  | error e => exact .error e

end SeenAlike

/-- Environments that are seen alike but for the bindings that are to be
replaced, which come to their values in the first one. -/
structure Replaces (values : Replacements)
    (env env' : List (Binding × Meaning)) : Prop where
  replaced : ∀ {b v}, values b = some v → ∃ slot, env.lookup b = some slot ∧
    slot.demand = .ok v
  kept : ∀ {b}, values b = none →
    (env.lookup b).map Meaning.demand = (env'.lookup b).map Meaning.demand

namespace Replaces

variable {values : Replacements} {env env' : List (Binding × Meaning)}

/-- A binding that comes to a value may be replaced by it. -/
theorem only {b : Binding} {v : Value} {slot : Meaning}
    (comes : slot.demand = .ok v) (env : List (Binding × Meaning)) :
    Replaces (.only b v) ((b, slot) :: env) env := by
  constructor
  · intro a w replaced
    unfold Replacements.only at replaced
    split at replaced
    · rename_i same
      cases replaced
      exact ⟨slot, by rw [same, List.lookup_cons_self], comes⟩
    · cases replaced
  · intro a kept
    unfold Replacements.only at kept
    split at kept
    · cases kept
    · rename_i other
      rw [List.lookup_cons, beq_eq_false_iff_ne.mpr other]

/-- In the body of a definition its own binding is not replaced, and is seen
alike. -/
theorem cons (replaces : Replaces values env env') {slot slot' : Meaning}
    (same : slot.demand = slot'.demand) (b : Binding) :
    Replaces (values.hide b) ((b, slot) :: env) ((b, slot') :: env') := by
  constructor
  · intro a w replaced
    unfold Replacements.hide at replaced
    split at replaced
    · cases replaced
    · rename_i other
      rw [List.lookup_cons, beq_eq_false_iff_ne.mpr other]
      exact replaces.replaced replaced
  · intro a kept
    unfold Replacements.hide at kept
    by_cases own : a = b
    · subst own
      rw [List.lookup_cons_self, List.lookup_cons_self]
      exact congrArg some same
    · rw [if_neg own] at kept
      rw [List.lookup_cons, List.lookup_cons, beq_eq_false_iff_ne.mpr own]
      exact replaces.kept kept

/-- What a lookup finds is seen alike, be it a literal afterwards or not. -/
theorem lookup (replaces : Replaces values env env') (settings : Settings)
    (b : Binding) (subject : Value) :
    SeenAlike ((Program.lookup b).meaning settings env subject)
      (((Program.lookup b).inline values).meaning settings env' subject) := by
  show SeenAlike (Rule.orFail (.unboundBinding b) (env.lookup b)) _
  unfold Program.inline
  cases written : values b with
  | some v =>
    obtain ⟨slot, found, comes⟩ := replaces.replaced written
    rw [found]
    exact .ok comes
  | none =>
    have same := replaces.kept written
    show SeenAlike _ (Rule.orFail (.unboundBinding b) (env'.lookup b))
    cases here : env.lookup b <;> cases there :
      env'.lookup b <;> rw [here, there] at same
    · exact .error _
    · cases same
    · cases same
    · exact .ok (Option.some.inj same)

end Replaces

namespace Program

variable {settings : Settings} {values : Replacements}
    {env env' : List (Binding × Meaning)} {subject : Value}

/-- An operand comes to the same. A literal that is written for it is rebuilt
and not demanded. -/
theorem operandOr_inline (replaces : Replaces values env env') {p : Program}
    (alike : SeenAlike (p.meaning settings env subject)
      ((p.inline values).meaning settings env' subject)) :
    (p.inline values).operandOr
      ((p.inline values).meaning settings env' subject >>= Meaning.demand) =
      p.operandOr (p.meaning settings env subject >>= Meaning.demand) := by
  cases p with
  | lookup b =>
    rw [← alike.demand]
    unfold inline
    cases written : values b with
    | none => rfl
    | some v =>
      obtain ⟨slot, found, comes⟩ := replaces.replaced written
      show Except.ok v = Rule.orFail _ (env.lookup b) >>= Meaning.demand
      rw [found]
      exact comes.symm
  | literal v shape => rfl
  | _ => exact alike.demand.symm

/-- Writing values for bindings that come to them changes nothing that is seen. -/
theorem seenAlike_inline (settings : Settings) (p : Program)
    (replaces : Replaces values env env') (subject : Value) :
    SeenAlike (p.meaning settings env subject)
      ((p.inline values).meaning settings env' subject) := by
  induction p generalizing values env env' subject with
  | identity => exact .refl _
  | lookup b => exact replaces.lookup settings b subject
  | literal v shape => exact .refl _
  | immediate inner ih =>
    have inner := (ih replaces subject).demand
    simp only [inline, meaning, inner]
    exact .refl _
  | defer inner ih =>
    have inner := (ih replaces subject).demand
    simp only [inline, meaning, inner]
    exact .refl _
  | functionDef b body input ihBody ihInput =>
    refine (ihInput replaces subject).bind fun slot slot' same => ?_
    exact ihBody (replaces.cons same b) subject
  | pipe left right ihLeft ihRight =>
    have left := (ihLeft replaces subject).demand
    simp only [inline, meaning, left]
    exact .bindValue _ fun v => ihRight replaces v
  | equalTo tag left right ihLeft ihRight =>
    have left := operandOr_inline replaces (ihLeft replaces subject)
    have right := operandOr_inline replaces (ihRight replaces subject)
    simp only [inline, meaning, left, right]
    exact .refl _
  | binaryMath op tag left right ihLeft ihRight =>
    have left := operandOr_inline replaces (ihLeft replaces subject)
    have right := operandOr_inline replaces (ihRight replaces subject)
    simp only [inline, meaning, left, right]
    exact .refl _
  | unaryMath op tag operand ih =>
    have operand := operandOr_inline replaces (ih replaces subject)
    simp only [inline, meaning, operand]
    exact .refl _
  | binaryLogical op left right ihLeft ihRight =>
    have left := (ihLeft replaces subject).demand
    have right := (ihRight replaces subject).demand
    simp only [inline, meaning, left, right]
    exact .refl _
  | not operand ih =>
    have operand := (ih replaces subject).demand
    simp only [inline, meaning, operand]
    exact .refl _
  | diverge condition onTrue onFalse ihCondition ihTrue ihFalse =>
    have condition := (ihCondition replaces subject).demand
    have onTrue := (ihTrue replaces subject).demand
    have onFalse := (ihFalse replaces subject).demand
    simp only [inline, meaning, condition, onTrue, onFalse]
    exact .refl _
  | tupleGetIndex tuple index ih =>
    have tuple := (ih replaces subject).demand
    simp only [inline, meaning, tuple]
    exact .refl _

/-- A definition whose input comes to a value comes to what its body does with
the value written for the binding. -/
theorem outcome_functionDef {b : Binding} {body input : Program} {v : Value}
    (value : input.outcome settings env subject = .ok v) :
    (functionDef b body input).outcome settings env subject =
      (body.inline (.only b v)).outcome settings env subject := by
  unfold outcome at value ⊢
  cases ended : input.meaning settings env subject with
  | error e =>
    rw [ended] at value
    cases value
  | ok slot =>
    rw [ended] at value
    show (input.meaning settings env subject >>=
        fun slot => body.meaning settings ((b, slot) :: env) subject) >>=
      Meaning.demand = _
    rw [ended]
    exact (seenAlike_inline settings body (.only value env) subject).demand

/-! ## Evaluations -/

/-- A let is substitution. Where its input evaluates to a value, a definition
evaluates as its body does with that value in place of the free lookups of the
binding, unless one of the two exceeds the limit, and they never do if the limit
allows for the nodes of the definition. -/
theorem evaluate_functionDef (b : Binding) (body input : Program)
    (config : EngineConfig) (context : Context) (subject v : Value)
    (value : input.evaluate config context subject = .ok v) :
    ((functionDef b body input).evaluate config context subject =
        (body.inline (.only b v)).evaluate config context subject ∨
      (functionDef b body input).evaluate config context subject =
        .error (.depthLimitExceeded config.maxDepth.toNat) ∨
      (body.inline (.only b v)).evaluate config context subject =
        .error (.depthLimitExceeded config.maxDepth.toNat)) ∧
    ((functionDef b body input).nodeCount ≤ config.maxDepth.toNat + 1 →
      (functionDef b body input).evaluate config context subject =
        (body.inline (.only b v)).evaluate config context subject) := by
  have outcomes :
      (functionDef b body input).outcome (.ofConfig config context)
          context.meanings subject =
        (body.inline (.only b v)).outcome (.ofConfig config context)
          context.meanings subject :=
    outcome_functionDef (outcome_of_value value)
  obtain ⟨alike, deep⟩ := evaluate_eq_of_outcome outcomes
  refine ⟨alike, fun room => deep room ?_⟩
  rw [body.nodeCount_inline (.only b v)]
  refine Nat.le_trans ?_ room
  simp only [nodeCount]
  omega

/-- The subject and one more, put off. -/
def successorLater : Program :=
  .defer (.binaryMath .add .integer .identity (.literal (.integer 1) .integer))

/-- A body that hands its binding on to a deferred definition and to one that
hides it, and adds both up behind another subject. -/
def handsOnTwice : Program :=
  .functionDef ⟨1⟩
    (.pipe (.literal (.integer 0) .integer)
      (.binaryMath .add .integer (.functionDef ⟨0⟩ (.lookup ⟨0⟩) (.lookup ⟨0⟩))
        (.lookup ⟨1⟩)))
    (.defer (.lookup ⟨0⟩))

/-- Only the lookups in the two inputs are replaced. -/
theorem evaluate_handsOnTwice :
    handsOnTwice.inline (.only ⟨0⟩ (.integer 6)) =
        .functionDef ⟨1⟩
          (.pipe (.literal (.integer 0) .integer)
            (.binaryMath .add .integer
              (.functionDef ⟨0⟩ (.lookup ⟨0⟩) (.literal (.integer 6) .any))
              (.lookup ⟨1⟩)))
          (.defer (.literal (.integer 6) .any)) ∧
      (handsOnTwice.inline (.only ⟨0⟩ (.integer 6))).evaluate {} {}
        (.integer 5) = .ok (.integer 12) ∧
      (functionDef ⟨0⟩ handsOnTwice successorLater).evaluate {} {}
        (.integer 5) = .ok (.integer 12) := by
  have value : successorLater.evaluate {} {} (.integer 5) = .ok (.integer 6) := rfl
  have inlined : (handsOnTwice.inline (.only ⟨0⟩ (.integer 6))).evaluate {} {}
    (.integer 5) = .ok (.integer 12) := rfl
  have same := (evaluate_functionDef ⟨0⟩ handsOnTwice successorLater {} {}
    (.integer 5) (.integer 6) value).2 (by decide)
  exact ⟨rfl, inlined, same.trans inlined⟩

end Program

end FieldExpr
