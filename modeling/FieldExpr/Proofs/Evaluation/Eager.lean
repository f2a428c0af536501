import FieldExpr.Proofs.Evaluation.Adequacy

/-!
# Laziness only spares failures

The eager form of a program computes the input of every definition at the
definition. If it comes to a value, all its inputs came to values, and each of
them is what the lazy program comes to where it demands that input: in the body,
behind other bindings, or after the body has handed it out. What the lazy program
never demands is a failure it never meets, and there is no other difference.
-/

namespace FieldExpr

/-- The program with every definition's input computed at once. -/
def Program.eager : Program → Program
  | .identity => .identity
  | .lookup b => .lookup b
  | .immediate inner => .immediate inner.eager
  | .defer inner => .defer inner.eager
  | .functionDef b body input => .functionDef b body.eager (.immediate input.eager)
  | .literal value shape => .literal value shape
  | .pipe left right => .pipe left.eager right.eager
  | .equalTo tag left right => .equalTo tag left.eager right.eager
  | .binaryMath op tag left right => .binaryMath op tag left.eager right.eager
  | .unaryMath op tag operand => .unaryMath op tag operand.eager
  | .binaryLogical op left right => .binaryLogical op left.eager right.eager
  | .not operand => .not operand.eager
  | .diverge condition onTrue onFalse =>
    .diverge condition.eager onTrue.eager onFalse.eager
  | .tupleGetIndex tuple index => .tupleGetIndex tuple.eager index

/-! ## Results that carry over -/

/-- Where one computation has a result, another has a related one. -/
def Yields {α β : Type} (R : α → β → Prop) (x : Except EvaluationError α)
    (y : Except EvaluationError β) : Prop :=
  ∀ a, x = .ok a → ∃ b, y = .ok b ∧ R a b

namespace Yields

variable {α β γ δ : Type} {R : α → β → Prop} {S : γ → δ → Prop}

theorem pure {a : α} {b : β} (related : R a b) : Yields R (.ok a) (.ok b) := by
  rintro _ ⟨⟩
  exact ⟨b, rfl, related⟩

/-- Nothing is asked of what goes with a failure. -/
theorem error {e : EvaluationError} {y : Except EvaluationError β} :
    Yields R (.error e) y := nofun

theorem refl {x : Except EvaluationError α} : Yields Eq x x := by
  intro a result
  exact ⟨a, result, rfl⟩

theorem bind {x : Except EvaluationError α} {y : Except EvaluationError β}
    {f : α → Except EvaluationError γ} {g : β → Except EvaluationError δ}
    (first : Yields R x y) (next : ∀ a b, R a b → Yields S (f a) (g b)) :
    Yields S (x >>= f) (y >>= g) := by
  cases x with
  | error e => exact .error
  | ok a =>
    obtain ⟨b, ended, related⟩ := first a rfl
    subst ended
    exact next a b related

/-- A result that is the same on both sides is handed on. -/
theorem bindEq {x y : Except EvaluationError α}
    {f : α → Except EvaluationError γ} {g : α → Except EvaluationError δ}
    (first : Yields Eq x y) (next : ∀ a, Yields S (f a) (g a)) :
    Yields S (x >>= f) (y >>= g) := by
  refine first.bind fun a b same => ?_
  subst same
  exact next a

end Yields

/-! ## Meanings that carry over -/

/-- The value that one meaning comes to, if it comes to any, is what the
other comes to. -/
def Meaning.Below (strict lazy : Meaning) : Prop :=
  Yields Eq strict.demand lazy.demand

/-- What a binding stands for in one environment is below what it stands for
in the other. -/
def Covers (strict lazy : List (Binding × Meaning)) : Prop :=
  ∀ b slot, strict.lookup b = some slot → ∃ slot', lazy.lookup b = some slot' ∧
    slot.Below slot'

theorem Covers.refl (env : List (Binding × Meaning)) : Covers env env :=
  fun _ slot found => ⟨slot, found, .refl⟩

theorem Covers.cons {strict lazy : List (Binding × Meaning)}
    {slot slot' : Meaning} (covers : Covers strict lazy)
    (below : slot.Below slot') (b : Binding) :
    Covers ((b, slot) :: strict) ((b, slot') :: lazy) := by
  intro a found
  rw [List.lookup_cons, List.lookup_cons]
  cases a == b with
  | true =>
    rintro ⟨⟩
    exact ⟨slot', rfl, below⟩
  | false => exact covers a found

section

variable {x y : Except EvaluationError Meaning} {u w : Except EvaluationError Value}

theorem Yields.demand (meanings : Yields Meaning.Below x y) :
    Yields Eq (x >>= Meaning.demand) (y >>= Meaning.demand) :=
  meanings.bind fun _ _ below => below

/-- A value that is computed at once is below whatever is demanded later. -/
theorem Meaning.Below.settle {strict lazy : Meaning} (below : strict.Below lazy) :
    Yields Meaning.Below (do return .ready (← strict.demand)) (.ok lazy) := by
  cases strict with
  | ready v => exact .pure below
  | suspended outcome =>
    cases outcome with
    | error e => exact .error
    | ok v => exact .pure below

theorem Yields.settle (meanings : Yields Meaning.Below x y) :
    Yields Meaning.Below (do return .ready (← x >>= Meaning.demand)) y := by
  cases x with
  | error e => exact .error
  | ok strict =>
    obtain ⟨lazy, ended, below⟩ := meanings strict rfl
    subst ended
    exact below.settle

theorem Yields.ready (values : Yields Eq u w) :
    Yields Meaning.Below (do return .ready (← u)) (do return .ready (← w)) :=
  values.bindEq fun _ => .pure .refl

theorem Yields.condition (values : Yields Eq u w) (operator : Operator) :
    Yields Eq (u >>= Rule.condition operator) (w >>= Rule.condition operator) :=
  values.bindEq fun _ => .refl

/-- The eager form of an operand that is a literal is that literal. -/
theorem Yields.operandOr (values : Yields Eq u w) (p : Program) :
    Yields Eq (p.eager.operandOr u) (p.operandOr w) := by
  cases p with
  | literal v shape => exact .refl
  | _ => exact values

end

namespace Program

/-- Where the eager form of a program has a meaning, it is below that of the
program. -/
theorem meaning_eager (settings : Settings) (p : Program)
    {strict lazy : List (Binding × Meaning)} (covers : Covers strict lazy)
    (subject : Value) :
    Yields Meaning.Below (p.eager.meaning settings strict subject)
      (p.meaning settings lazy subject) := by
  induction p generalizing strict lazy subject with
  | identity => exact .pure .refl
  | lookup b =>
    show Yields _ (Rule.orFail _ (strict.lookup b)) (Rule.orFail _ (lazy.lookup b))
    cases found : strict.lookup b with
    | none => exact .error
    | some slot =>
      obtain ⟨slot', found', below⟩ := covers b slot found
      rw [found']
      exact .pure below
  | literal v shape => exact .pure .refl
  | immediate inner ih => exact (ih covers subject).demand.ready
  | defer inner ih => exact .pure (ih covers subject).demand
  | functionDef b body input ihBody ihInput =>
    -- The eager binding holds a value, and the lazy one what comes to that
    -- value when it is forced.
    refine (ihInput covers subject).settle.bind fun slot slot' below => ?_
    exact ihBody (covers.cons below b) subject
  | pipe left right ihLeft ihRight =>
    exact (ihLeft covers subject).demand.bindEq fun v => ihRight covers v
  | equalTo tag left right ihLeft ihRight =>
    refine ((ihLeft covers subject).demand.operandOr left).bindEq fun l => ?_
    refine ((ihRight covers subject).demand.operandOr right).bindEq fun r => ?_
    exact Yields.refl.bindEq fun equal => .pure .refl
  | binaryMath op tag left right ihLeft ihRight =>
    refine ((ihLeft covers subject).demand.operandOr left).bindEq fun l => ?_
    exact ((ihRight covers subject).demand.operandOr right).bindEq fun r =>
      Yields.refl.ready
  | unaryMath op tag operand ih =>
    exact ((ih covers subject).demand.operandOr operand).bindEq fun v =>
      Yields.refl.ready
  | binaryLogical op left right ihLeft ihRight =>
    refine ((ihLeft covers subject).demand.condition _).bindEq fun l => ?_
    split
    · exact .pure .refl
    · refine ((ihRight covers subject).demand.condition _).bindEq fun r => ?_
      exact .pure .refl
  | not operand ih =>
    exact ((ih covers subject).demand.condition .not).bindEq fun truth =>
      .pure .refl
  | diverge condition onTrue onFalse ihCondition ihTrue ihFalse =>
    refine ((ihCondition covers subject).demand.condition .diverge).bindEq
      fun choice => ?_
    cases choice with
    | true => exact (ihTrue covers subject).demand.ready
    | false => exact (ihFalse covers subject).demand.ready
  | tupleGetIndex tuple index ih =>
    exact (ih covers subject).demand.bindEq fun v => Yields.refl.ready

/-- A value of the eager form is the outcome of the program. -/
theorem outcome_of_eager {settings : Settings} {p : Program}
    {env : List (Binding × Meaning)} {subject v : Value}
    (strict : p.eager.outcome settings env subject = .ok v) :
    p.outcome settings env subject = .ok v := by
  obtain ⟨w, result, rfl⟩ :=
    (p.meaning_eager settings (.refl env) subject).demand v strict
  exact result

/-- Where an evaluation of the eager form of a program gives a value, an
evaluation of the program gives that value, unless its limit is exceeded. -/
theorem evaluationUnder_of_eager {settings : Settings} {p : Program}
    {context : Context} {subject v : Value}
    (strict : (p.eager.evaluationUnder settings context subject).result = .ok v) :
    (p.evaluationUnder settings context subject).result = .ok v ∨
      (p.evaluationUnder settings context subject).result =
        .error (.depthLimitExceeded settings.maxDepth) := by
  rcases evaluationUnder_eq_outcome settings p context subject with
    result | ⟨_, failed⟩
  · exact .inl (result.trans (outcome_of_eager (outcome_of_value strict)))
  · exact .inr failed

/-- Laziness never changes a value. Where the eager form of a program gives one,
the program gives the same one or exceeds its limit, which it may do since it
forces its inputs at other depths; so the two never give two values. -/
theorem evaluate_of_eager (p : Program) (config : EngineConfig)
    (context : Context) (subject : Value) :
    (∀ v, p.eager.evaluate config context subject = .ok v →
      p.evaluate config context subject = .ok v ∨
        p.evaluate config context subject =
          .error (.depthLimitExceeded config.maxDepth.toNat)) ∧
    (∀ v w, p.eager.evaluate config context subject = .ok v →
      p.evaluate config context subject = .ok w → v = w) := by
  have spared : ∀ v, p.eager.evaluate config context subject = .ok v →
      p.evaluate config context subject = .ok v ∨
        p.evaluate config context subject =
          .error (.depthLimitExceeded config.maxDepth.toNat) :=
    fun v strict => evaluationUnder_of_eager strict
  refine ⟨spared, fun v w strict result => ?_⟩
  rcases spared v strict with same | failed
  · exact Except.ok.inj (same.symm.trans result)
  · cases failed.symm.trans result

/-- A deferred sum that is read through another name, two negations further down. -/
def sumRenamed : Program :=
  .functionDef ⟨0⟩
    (.functionDef ⟨1⟩
      (.unaryMath .negate .integer (.unaryMath .negate .integer (.lookup ⟨1⟩)))
      (.lookup ⟨0⟩))
    (.defer (.binaryMath .add .integer .identity .identity))

/-- It comes to what its eager form comes to, with a limit of six. With five only
the lazy program exceeds the limit, since it forces the sum below the negations. -/
theorem evaluate_sumRenamed :
    sumRenamed.evaluate { maxDepth := 6 } {} (.integer 4) = .ok (.integer 8) ∧
      sumRenamed.eager.evaluate { maxDepth := 5 } {} (.integer 4) =
        .ok (.integer 8) ∧
      sumRenamed.evaluate { maxDepth := 5 } {} (.integer 4) =
        .error (.depthLimitExceeded 5) ∧
      ∀ w, sumRenamed.evaluate { maxDepth := 6 } {} (.integer 4) = .ok w →
      .integer 8 = w := by
  have strict : sumRenamed.eager.evaluate { maxDepth := 6 } {} (.integer 4) =
    .ok (.integer 8) := rfl
  have failed : sumRenamed.evaluate { maxDepth := 5 } {} (.integer 4) =
    .error (.depthLimitExceeded 5) := rfl
  obtain ⟨spared, same⟩ := sumRenamed.evaluate_of_eager { maxDepth := 6 } {}
    (.integer 4)
  refine ⟨?_, rfl, failed, fun w => same _ w strict⟩
  rcases spared _ strict with value | exceeded
  · exact value
  · cases exceeded

end Program

end FieldExpr
