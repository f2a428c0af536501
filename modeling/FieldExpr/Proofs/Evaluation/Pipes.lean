import FieldExpr.Proofs.Evaluation.Adequacy
import FieldExpr.Proofs.Program.Congruence

/-!
# Pipes associate anywhere

Two pipes one behind the other may be grouped either way. The two groupings
demand and delay their parts at different places, but they mean the same in
every scope and for every subject, and neither is a literal, which an operand
would treat in its own way. Programs like these are interchangeable: in any
hole, be it in a deferred program, in the input of a definition or in a branch,
they leave the meaning of the whole as it was (`Congruent.interchangeable`).
-/

namespace FieldExpr

namespace Program

/-- Programs that mean the same in every scope and for every subject,
also as operands. -/
structure Interchangeable (settings : Settings) (p q : Program) : Prop where
  meaning : ∀ env subject, p.meaning settings env subject =
    q.meaning settings env subject
  operand : ∀ value, p.operandOr value = q.operandOr value

variable {settings : Settings} {R : Program → Program → Prop}

theorem Interchangeable.refl (p : Program) : Interchangeable settings p p :=
  ⟨fun _ _ => rfl, fun _ => rfl⟩

theorem Interchangeable.outcome {p q : Program}
    (same : Interchangeable settings p q) (env : List (Binding × Meaning))
    (subject : Value) :
    p.outcome settings env subject = q.outcome settings env subject := by
  unfold Program.outcome
  rw [same.meaning]

/-- Programs that are equal but for interchangeable parts are interchangeable. -/
theorem Congruent.interchangeable
    (parts : ∀ p q, R p q → Interchangeable settings p q) {p q : Program}
    (congruent : Congruent R p q) : Interchangeable settings p q := by
  induction congruent with
  | part related => exact parts _ _ related
  | identity => exact .refl _
  | lookup b => exact .refl _
  | literal v shape => exact .refl _
  -- An operand treats only a literal in its own way, and none of the programs
  -- below is one.
  | immediate _ ih | defer _ ih | not _ ih | unaryMath _ _ _ ih
  | tupleGetIndex _ _ ih =>
    refine ⟨fun env subject => ?_, fun value => rfl⟩
    simp only [Program.meaning, ih.meaning, ih.operand]
  | functionDef b _ _ bodyIH inputIH =>
    refine ⟨fun env subject => ?_, fun value => rfl⟩
    simp only [Program.meaning, bodyIH.meaning, inputIH.meaning]
  | pipe _ _ leftIH rightIH | binaryLogical _ _ _ leftIH rightIH =>
    refine ⟨fun env subject => ?_, fun value => rfl⟩
    simp only [Program.meaning, leftIH.meaning, rightIH.meaning]
  | equalTo _ _ _ leftIH rightIH | binaryMath _ _ _ _ leftIH rightIH =>
    refine ⟨fun env subject => ?_, fun value => rfl⟩
    simp only [Program.meaning, leftIH.meaning, rightIH.meaning, leftIH.operand,
      rightIH.operand]
  | diverge _ _ _ conditionIH trueIH falseIH =>
    refine ⟨fun env subject => ?_, fun value => rfl⟩
    simp only [Program.meaning, conditionIH.meaning, trueIH.meaning,
      falseIH.meaning]

/-- The two groupings of two pipes. -/
inductive Regrouped : Program → Program → Prop
  | pipes (a b c : Program) : Regrouped (.pipe (.pipe a b) c) (.pipe a (.pipe b c))

/-- The subject of the last program is in either grouping what the second one
makes of the value of the first. -/
theorem Regrouped.interchangeable (settings : Settings) (p q : Program)
    (regrouped : Regrouped p q) :
    Interchangeable settings p q := by
  cases regrouped with
  | pipes a b c =>
    refine ⟨fun env subject => ?_, fun value => rfl⟩
    simp only [Program.meaning, bind_assoc]

theorem Regrouped.nodeCount_eq {p q : Program} (regrouped : Regrouped p q) :
    p.nodeCount = q.nodeCount := by
  cases regrouped with
  | pipes a b c =>
    simp only [nodeCount]
    omega

/-- Programs of one size make programs of one size in any hole. -/
theorem nodeCount_fill {p q : Program} (same : p.nodeCount = q.nodeCount)
    (C : Hollow) :
    (C.fill p).nodeCount = (C.fill q).nodeCount := by
  induction C with
  | hole => exact same
  | _ => simp only [Hollow.fill, nodeCount, *]

/-- Pipes associate, wherever they stand: both groupings evaluate to the same
value or fail with the same error, unless one of the two exceeds the limit, and
they never do if the limit allows for the nodes of the program. -/
theorem evaluate_pipe_assoc (C : Hollow) (a b c : Program)
    (config : EngineConfig) (context : Context) (subject : Value) :
    ((C.fill (.pipe (.pipe a b) c)).evaluate config context subject =
        (C.fill (.pipe a (.pipe b c))).evaluate config context subject ∨
      (C.fill (.pipe (.pipe a b) c)).evaluate config context subject =
        .error (.depthLimitExceeded config.maxDepth.toNat) ∨
      (C.fill (.pipe a (.pipe b c))).evaluate config context subject =
        .error (.depthLimitExceeded config.maxDepth.toNat)) ∧
    ((C.fill (.pipe (.pipe a b) c)).nodeCount ≤ config.maxDepth.toNat + 1 →
      (C.fill (.pipe (.pipe a b) c)).evaluate config context subject =
        (C.fill (.pipe a (.pipe b c))).evaluate config context subject) := by
  have regrouped := Regrouped.pipes a b c
  have same := (Congruent.fill regrouped C).interchangeable
    (Regrouped.interchangeable (.ofConfig config context))
  have size := nodeCount_fill regrouped.nodeCount_eq C
  obtain ⟨alike, deep⟩ :=
    evaluate_eq_of_outcome (same.outcome context.meanings subject)
  refine ⟨alike, fun room => deep room ?_⟩
  rw [← size]
  exact room

/-- A hole in the input of a definition, put off until the body adds its value
to another one. -/
def holeInInput : Hollow :=
  .functionInput ⟨0⟩
    (.binaryMath .add .integer (.lookup ⟨0⟩) (.literal (.integer 1) .integer))
    (.defer .hole)

/-- The subject and two more, put off. -/
def twoMore : Program :=
  .defer (.binaryMath .add .integer .identity (.literal (.integer 2) .integer))

/-- Three times the subject. -/
def threeTimes : Program :=
  .binaryMath .multiply .integer .identity (.literal (.integer 3) .integer)

/-- The opposite of the subject, put off. -/
def opposite : Program :=
  .defer (.unaryMath .negate .integer .identity)

theorem evaluate_pipe_assoc_holeInInput :
    (holeInInput.fill (.pipe (.pipe twoMore threeTimes) opposite)).nodeCount ≤
      63 + 1 ∧
      (holeInInput.fill (.pipe (.pipe twoMore threeTimes) opposite)).evaluate
        { maxDepth := 63 } {} (.integer 5) =
        .ok (.integer (-20)) ∧
      (holeInInput.fill (.pipe twoMore (.pipe threeTimes opposite))).evaluate
        { maxDepth := 63 } {} (.integer 5) =
        .ok (.integer (-20)) := by
  have room :
    (holeInInput.fill (.pipe (.pipe twoMore threeTimes) opposite)).nodeCount ≤
    63 + 1 := by decide
  have left :
      (holeInInput.fill (.pipe (.pipe twoMore threeTimes) opposite)).evaluate
      { maxDepth := 63 } {} (.integer 5) = .ok (.integer (-20)) := rfl
  have same := (evaluate_pipe_assoc holeInInput twoMore threeTimes opposite
    { maxDepth := 63 } {} (.integer 5)).2 room
  exact ⟨room, left, same.symm.trans left⟩

end Program

end FieldExpr
