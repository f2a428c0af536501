import FieldExpr.Program.Scope
import FieldExpr.Proofs.Value.Canonical

/-!
# Canonical programs

The canonical form of a program has canonical literals and is the program
otherwise. Programs with well-formed literals are the same exactly when they
have one canonical form.
-/

namespace FieldExpr.Program

/-- The program with a function applied to its literals. -/
def mapLiterals (f : Value → Value) : Program → Program
  | .identity => .identity
  | .lookup b => .lookup b
  | .immediate inner => .immediate (inner.mapLiterals f)
  | .defer inner => .defer (inner.mapLiterals f)
  | .functionDef b body input =>
    .functionDef b (body.mapLiterals f) (input.mapLiterals f)
  | .literal v shape => .literal (f v) shape
  | .pipe left right => .pipe (left.mapLiterals f) (right.mapLiterals f)
  | .equalTo tag left right =>
    .equalTo tag (left.mapLiterals f) (right.mapLiterals f)
  | .binaryMath op tag left right =>
    .binaryMath op tag (left.mapLiterals f) (right.mapLiterals f)
  | .unaryMath op tag operand => .unaryMath op tag (operand.mapLiterals f)
  | .binaryLogical op left right =>
    .binaryLogical op (left.mapLiterals f) (right.mapLiterals f)
  | .not operand => .not (operand.mapLiterals f)
  | .diverge condition onTrue onFalse =>
    .diverge (condition.mapLiterals f) (onTrue.mapLiterals f)
      (onFalse.mapLiterals f)
  | .tupleGetIndex tuple index => .tupleGetIndex (tuple.mapLiterals f) index

/-- The literals of a program, from the left to the right. -/
def literals : Program → List Value
  | .identity => []
  | .lookup _ => []
  | .immediate inner => inner.literals
  | .defer inner => inner.literals
  | .functionDef _ body input => body.literals ++ input.literals
  | .literal v _ => [v]
  | .pipe left right => left.literals ++ right.literals
  | .equalTo _ left right => left.literals ++ right.literals
  | .binaryMath _ _ left right => left.literals ++ right.literals
  | .unaryMath _ _ operand => operand.literals
  | .binaryLogical _ left right => left.literals ++ right.literals
  | .not operand => operand.literals
  | .diverge condition onTrue onFalse =>
    condition.literals ++ onTrue.literals ++ onFalse.literals
  | .tupleGetIndex tuple _ => tuple.literals

/-- The program with canonical literals. -/
def canonical (p : Program) : Program :=
  p.mapLiterals Value.canonical

/-- Every literal is well formed. -/
def WellFormed (p : Program) : Prop :=
  ∀ v ∈ p.literals, v.WellFormed

/-- A literal of a program is the program itself or belongs to one of
its children. -/
theorem mem_literals_iff {p : Program} {v : Value} :
    v ∈ p.literals ↔ (∃ shape, p = .literal v shape) ∨ ∃ c ∈ p.children,
      v ∈ c.literals := by
  cases p <;> grind [children, literals]

theorem literals_mapLiterals (f : Value → Value) (p : Program) :
    (p.mapLiterals f).literals = p.literals.map f := by
  induction p <;> simp_all only [mapLiterals, literals, List.map_nil,
    List.map_cons, List.map_append]

theorem depth_mapLiterals (f : Value → Value) (p : Program) :
    (p.mapLiterals f).depth = p.depth := by
  induction p <;> simp_all only [mapLiterals, depth]

/-- Scopes do not depend on literals. -/
theorem checkScope_mapLiterals (f : Value → Value) (p : Program)
    (scope defined : List Binding) :
    (p.mapLiterals f).checkScope scope defined = p.checkScope scope defined := by
  induction p generalizing scope defined <;> simp_all only [mapLiterals, checkScope]

theorem validate_mapLiterals (f : Value → Value) (p : Program) :
    (p.mapLiterals f).validate = p.validate := by
  unfold validate
  rw [checkScope_mapLiterals]

theorem WellFormed.canonical {p : Program} (wellFormed : p.WellFormed) :
    p.canonical.WellFormed := by
  intro v mem
  unfold Program.canonical at mem
  rw [literals_mapLiterals] at mem
  obtain ⟨w, literal, rfl⟩ := List.mem_map.mp mem
  exact (wellFormed w literal).canonical

/-- Well-formed programs are the same exactly when they have one canonical form. -/
theorem same_iff_canonical {p q : Program} (first : p.WellFormed)
    (second : q.WellFormed) :
    p.same q = true ↔ p.canonical = q.canonical := by
  unfold canonical
  induction p generalizing q with
  | identity => cases q <;> simp [same, mapLiterals]
  | lookup b => cases q <;> simp [same, mapLiterals]
  | immediate inner ih =>
    cases q with
    | immediate inner' => simp [same, mapLiterals, ih (q := inner') first second]
    | _ => simp [same, mapLiterals]
  | defer inner ih =>
    cases q with
    | defer inner' => simp [same, mapLiterals, ih (q := inner') first second]
    | _ => simp [same, mapLiterals]
  | literal v shape =>
    cases q with
    | literal v' shape' =>
      have values :=
        Value.same_iff_canonical v v' (first v (by simp [literals]))
          (second v' (by simp [literals]))
      simp [same, mapLiterals, values]
    | _ => simp [same, mapLiterals]
  | functionDef b body input bodyIH inputIH =>
    cases q with
    | functionDef b' body' input' =>
      obtain ⟨body_wf, input_wf⟩ := List.forall_mem_append.mp first
      obtain ⟨body_wf', input_wf'⟩ := List.forall_mem_append.mp second
      simp [same, mapLiterals, bodyIH body_wf body_wf',
        inputIH input_wf input_wf', and_assoc]
    | _ => simp [same, mapLiterals]
  | pipe left right leftIH rightIH =>
    cases q with
    | pipe left' right' =>
      obtain ⟨left_wf, right_wf⟩ := List.forall_mem_append.mp first
      obtain ⟨left_wf', right_wf'⟩ := List.forall_mem_append.mp second
      simp [same, mapLiterals, leftIH left_wf left_wf', rightIH right_wf right_wf']
    | _ => simp [same, mapLiterals]
  | equalTo tag left right leftIH rightIH =>
    cases q with
    | equalTo tag' left' right' =>
      obtain ⟨left_wf, right_wf⟩ := List.forall_mem_append.mp first
      obtain ⟨left_wf', right_wf'⟩ := List.forall_mem_append.mp second
      simp [same, mapLiterals, leftIH left_wf left_wf',
        rightIH right_wf right_wf', and_assoc]
    | _ => simp [same, mapLiterals]
  | binaryMath op tag left right leftIH rightIH =>
    cases q with
    | binaryMath op' tag' left' right' =>
      obtain ⟨left_wf, right_wf⟩ := List.forall_mem_append.mp first
      obtain ⟨left_wf', right_wf'⟩ := List.forall_mem_append.mp second
      simp [same, mapLiterals, leftIH left_wf left_wf',
        rightIH right_wf right_wf', and_assoc]
    | _ => simp [same, mapLiterals]
  | unaryMath op tag operand ih =>
    cases q with
    | unaryMath op' tag' operand' =>
      simp [same, mapLiterals, ih (q := operand') first second]
    | _ => simp [same, mapLiterals]
  | binaryLogical op left right leftIH rightIH =>
    cases q with
    | binaryLogical op' left' right' =>
      obtain ⟨left_wf, right_wf⟩ := List.forall_mem_append.mp first
      obtain ⟨left_wf', right_wf'⟩ := List.forall_mem_append.mp second
      simp [same, mapLiterals, leftIH left_wf left_wf',
        rightIH right_wf right_wf', and_assoc]
    | _ => simp [same, mapLiterals]
  | not operand ih =>
    cases q with
    | not operand' => simp [same, mapLiterals, ih (q := operand') first second]
    | _ => simp [same, mapLiterals]
  | diverge condition onTrue onFalse conditionIH trueIH falseIH =>
    cases q with
    | diverge condition' onTrue' onFalse' =>
      obtain ⟨both_wf, false_wf⟩ := List.forall_mem_append.mp first
      obtain ⟨condition_wf, true_wf⟩ := List.forall_mem_append.mp both_wf
      obtain ⟨both_wf', false_wf'⟩ := List.forall_mem_append.mp second
      obtain ⟨condition_wf', true_wf'⟩ := List.forall_mem_append.mp both_wf'
      simp [same, mapLiterals, conditionIH condition_wf condition_wf',
        trueIH true_wf true_wf', falseIH false_wf false_wf', and_assoc]
    | _ => simp [same, mapLiterals]
  | tupleGetIndex tuple index ih =>
    cases q with
    | tupleGetIndex tuple' index' =>
      simp [same, mapLiterals, ih (q := tuple') first second]
    | _ => simp [same, mapLiterals]

end FieldExpr.Program
