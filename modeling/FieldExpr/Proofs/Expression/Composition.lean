import FieldExpr.Proofs.Expression.Safety

/-!
# Composed functions

Applying a composition is applying its parts one after the other. The two
compile to different programs: the composition binds its argument once more, so
that the bindings behind it are numbered otherwise and the argument is reached
one definition deeper. But names mean the same in both, and an argument that is
put off stays so on its way through the additional binding.

The law holds wherever a function is applied, in the body of another one that
uses names from outside as well as in an argument. `Recomposed` takes it to
whole expressions.
-/

namespace FieldExpr

/-- Programs that evaluate alike: to one value or one error, unless one of the
two exceeds the limit. Neither does if the limit allows for its nodes. -/
structure Program.EvaluateAlike (config : EngineConfig) (context : Context)
    (subject : Value) (p q : Program) :
    Prop where
  alike : p.evaluate config context subject = q.evaluate config context subject ∨
    p.evaluate config context subject =
      .error (.depthLimitExceeded config.maxDepth.toNat) ∨
    q.evaluate config context subject =
      .error (.depthLimitExceeded config.maxDepth.toNat)
  deep : p.nodeCount ≤ config.maxDepth.toNat + 1 →
    q.nodeCount ≤ config.maxDepth.toNat + 1 →
    p.evaluate config context subject = q.evaluate config context subject

namespace Expression

/-- Expressions that differ in how their functions are composed: the least
congruence that takes a composition apart where it is applied. -/
inductive Recomposed : Expression → Expression → Prop
  | refl (e : Expression) : Recomposed e e
  | symm {e e'} : Recomposed e e' → Recomposed e' e
  | trans {e e' e''} : Recomposed e e' → Recomposed e' e'' → Recomposed e e''
  | andThen (f g : Function) (x : Expression) :
    Recomposed (.apply (f.andThen g) x) (.apply g (.apply f x))
  | immediate {e e'} : Recomposed e e' → Recomposed (.immediate e) (.immediate e')
  | defer {e e'} : Recomposed e e' → Recomposed (.defer e) (.defer e')
  | argument (f : Function) {x x'} : Recomposed x x' →
    Recomposed (.apply f x) (.apply f x')
  | body (parameter : String) {e e'} (x : Expression) : Recomposed e e' →
    Recomposed (.apply (.named parameter e) x) (.apply (.named parameter e') x)
  | pipe {l l' r r'} : Recomposed l l' → Recomposed r r' →
    Recomposed (.pipe l r) (.pipe l' r')
  | equalTo (tag : EqualityTag) {l l' r r'} : Recomposed l l' → Recomposed r r' →
    Recomposed (.equalTo tag l r) (.equalTo tag l' r')
  | binaryMath (op : BinaryMathOp) (tag : NumericTag) {l l' r r'} :
    Recomposed l l' → Recomposed r r' →
    Recomposed (.binaryMath op tag l r) (.binaryMath op tag l' r')
  | unaryMath (op : UnaryMathOp) (tag : NumericTag) {e e'} : Recomposed e e' →
    Recomposed (.unaryMath op tag e) (.unaryMath op tag e')
  | binaryLogical (op : BinaryLogicalOp) {l l' r r'} : Recomposed l l' →
    Recomposed r r' →
    Recomposed (.binaryLogical op l r) (.binaryLogical op l' r')
  | not {e e'} : Recomposed e e' → Recomposed (.not e) (.not e')
  | diverge {c c' t t' f f'} : Recomposed c c' → Recomposed t t' → Recomposed f f' →
    Recomposed (.diverge c t f) (.diverge c' t' f')
  | tupleGetIndex {e e'} (index : UInt64) : Recomposed e e' →
    Recomposed (.tupleGetIndex e index) (.tupleGetIndex e' index)

namespace Recomposed

variable {e e' : Expression}

/-- Composition is associative where it is applied. -/
theorem andThen_assoc (f g h : Function) (x : Expression) :
    Recomposed (.apply ((f.andThen g).andThen h) x)
      (.apply (f.andThen (g.andThen h)) x) := by
  have left : Recomposed (.apply ((f.andThen g).andThen h) x)
      (.apply h (.apply g (.apply f x))) :=
    .trans (.andThen _ h x) (.argument h (.andThen f g x))
  have right : Recomposed (.apply (f.andThen (g.andThen h)) x)
      (.apply h (.apply g (.apply f x))) :=
    .trans (.andThen f _ x) (.andThen g h _)
  exact .trans left (.symm right)

/-- No composition is a literal, which an operand would treat in its own way. -/
theorem operandOr (recomposed : Recomposed e e')
    (value : Except EvaluationError Value) :
    e.operandOr value = e'.operandOr value := by
  induction recomposed with
  | symm _ ih => exact ih.symm
  | trans _ _ firstIH secondIH => exact firstIH.trans secondIH
  | _ => rfl

/-- The names that an expression needs do not depend on how its functions
are composed. -/
theorem closedIn_iff (recomposed : Recomposed e e') (names : List String) :
    e.ClosedIn names ↔ e'.ClosedIn names := by
  induction recomposed generalizing names with
  | refl e => exact Iff.rfl
  | symm _ ih => exact (ih names).symm
  | trans _ _ firstIH secondIH => exact (firstIH names).trans (secondIH names)
  | andThen f g x => exact and_assoc.symm
  | immediate _ ih | defer _ ih | unaryMath _ _ _ ih | not _ ih
  | tupleGetIndex _ _ ih => exact ih names
  | argument f _ ih => exact and_congr_left' (ih names)
  | body parameter x _ ih => exact and_congr_right' (ih (parameter :: names))
  | pipe _ _ leftIH rightIH | equalTo _ _ _ leftIH rightIH
  | binaryMath _ _ _ _ leftIH rightIH
  | binaryLogical _ _ _ leftIH rightIH =>
    exact and_congr (leftIH names) (rightIH names)
  | diverge _ _ _ conditionIH trueIH falseIH =>
    exact and_congr (conditionIH names) (and_congr (trueIH names) (falseIH names))

/-- Nor does what an expression means, wherever it stands. -/
theorem meaning (recomposed : Recomposed e e') (settings : Settings)
    (env : Environment) (subject : Value) :
    e.meaning settings env subject = e'.meaning settings env subject := by
  induction recomposed generalizing env subject with
  | refl e => rfl
  | symm _ ih => exact (ih env subject).symm
  | trans _ _ firstIH secondIH =>
    exact (firstIH env subject).trans (secondIH env subject)
  | andThen f g x =>
    -- Both hand the meaning of the argument to the first function and what
    -- comes of that to the second.
    simp only [Expression.meaning, Function.meaning, bind_assoc]
  | immediate _ ih | defer _ ih | argument _ _ ih | not _ ih
  | tupleGetIndex _ _ ih =>
    simp only [Expression.meaning, ih]
  | body parameter x _ ih => simp only [Expression.meaning, Function.meaning, ih]
  | pipe _ _ leftIH rightIH | binaryLogical _ _ _ leftIH rightIH =>
    simp only [Expression.meaning, leftIH, rightIH]
  | equalTo _ left right leftIH rightIH
  | binaryMath _ _ left right leftIH rightIH =>
    simp only [Expression.meaning, leftIH, rightIH, left.operandOr, right.operandOr]
  | unaryMath _ _ operand ih =>
    simp only [Expression.meaning, ih, operand.operandOr]
  | diverge _ _ _ conditionIH trueIH falseIH =>
    simp only [Expression.meaning, conditionIH, trueIH, falseIH]

/-- Recomposed expressions without free names compile to programs that
evaluate alike. -/
theorem evaluateAlike (recomposed : Recomposed e e') (closed : e.Closed)
    (room : e.definitions < UInt64.size) (room' : e'.definitions < UInt64.size)
    (config : EngineConfig) (context : Context) (subject : Value) :
    Program.EvaluateAlike config context subject e.compile e'.compile := by
  have closed' : e'.Closed := (recomposed.closedIn_iff []).mp closed
  have interpreted : e.interpret (.ofConfig config context) subject =
      e'.interpret (.ofConfig config context) subject :=
    congrArg (· >>= Meaning.demand)
      (recomposed.meaning (.ofConfig config context) [] subject)
  have outcomes :=
    (outcome_compile (.ofConfig config context) closed room context.meanings
        subject).trans
    (interpreted.trans
      (outcome_compile (.ofConfig config context) closed' room' context.meanings
        subject).symm)
  obtain ⟨alike, deep⟩ := evaluate_eq_of_outcome outcomes
  exact ⟨alike, deep⟩

end Recomposed

/-- Applying the composition of two functions and applying them one after the
other evaluate alike, for arguments that are put off as well as for others. So
composition is associative, and in any expression a composition may be taken
apart or regrouped. The bindings are words, so there may not be more
definitions than words. -/
theorem evaluate_andThen (config : EngineConfig) (context : Context)
    (subject : Value) :
    (∀ (f g : Function) (x : Expression), (apply (f.andThen g) x).Closed →
      (apply (f.andThen g) x).definitions < UInt64.size →
      Program.EvaluateAlike config context subject
        (apply (f.andThen g) x).compile (apply g (apply f x)).compile) ∧
    (∀ (f g h : Function) (x : Expression),
      (apply ((f.andThen g).andThen h) x).Closed →
      (apply ((f.andThen g).andThen h) x).definitions < UInt64.size →
      Program.EvaluateAlike config context subject
        (apply ((f.andThen g).andThen h) x).compile
          (apply (f.andThen (g.andThen h)) x).compile) ∧
    (∀ e e' : Expression, e.Recomposed e' → e.Closed →
      e.definitions < UInt64.size → e'.definitions < UInt64.size →
      Program.EvaluateAlike config context subject e.compile e'.compile) := by
  refine ⟨fun f g x closed room => ?_, fun f g h x closed room => ?_,
    fun e e' recomposed closed room room' => ?_⟩
  · have room' : (apply g (apply f x)).definitions < UInt64.size := by
      simp only [definitions, Function.definitions] at room ⊢
      omega
    exact (Recomposed.andThen f g x).evaluateAlike closed room room' config
      context subject
  · have room' : (apply (f.andThen (g.andThen h)) x).definitions < UInt64.size := by
      simp only [definitions, Function.definitions] at room ⊢
      omega
    exact (Recomposed.andThen_assoc f g h x).evaluateAlike closed room room'
      config context subject
  · exact recomposed.evaluateAlike closed room room' config context subject

/-- Adds a name from outside to the argument. -/
def addOuter : Function :=
  .named "n" (.binaryMath .add .integer (.var "n") (.var "y"))

/-- The square of the argument, which is bound once more, and the subject. -/
def squareAndSubject : Function :=
  .named "n" (.letIn "z" (.defer (.var "n"))
    (.binaryMath .add .integer
      (.binaryMath .multiply .integer (.var "z") (.var "z")) .identity))

/-- Twice the name from outside, put off. -/
def twiceOuter : Expression :=
  .defer (.binaryMath .multiply .integer (.var "y") (.integer 2))

/-- An expression in which `y` is one more than the subject. -/
def withOuter (e : Expression) : Expression :=
  .letIn "y" (.defer (.binaryMath .add .integer .identity (.integer 1))) e

theorem evaluate_andThen_withOuter :
    (withOuter (apply (addOuter.andThen squareAndSubject)
        twiceOuter)).compile.evaluate {} {} (.integer 5) =
        .ok (.integer 329) ∧
      (withOuter (apply squareAndSubject
        (apply addOuter twiceOuter))).compile.evaluate {} {} (.integer 5) =
        .ok (.integer 329) := by
  have recomposed :
      Recomposed (withOuter (apply (addOuter.andThen squareAndSubject) twiceOuter))
      (withOuter (apply squareAndSubject (apply addOuter twiceOuter))) :=
    .body "y" _ (.andThen addOuter squareAndSubject twiceOuter)
  have closed :
      (withOuter (apply (addOuter.andThen squareAndSubject)
        twiceOuter)).Closed := by
    simp [withOuter, addOuter, squareAndSubject, twiceOuter, Closed, ClosedIn,
      Function.ClosedIn, letIn, integer]
  have room :
    (withOuter (apply (addOuter.andThen squareAndSubject)
      twiceOuter)).definitions < UInt64.size := by decide
  have same := (evaluate_andThen {} {} (.integer 5)).2.2 _ _ recomposed closed
    room (by decide)
  have deep :
    (withOuter (apply (addOuter.andThen squareAndSubject)
      twiceOuter)).compile.nodeCount ≤ 256 + 1 := by decide
  have together :
      (withOuter (apply (addOuter.andThen squareAndSubject)
        twiceOuter)).compile.evaluate {} {}
      (.integer 5) = .ok (.integer 329) :=
    (evaluate_eq_outcome deep {} (.integer 5)).trans
      (outcome_compile _ closed room _ (.integer 5))
  exact ⟨together, (same.deep deep (by decide)).symm.trans together⟩

end Expression

end FieldExpr
