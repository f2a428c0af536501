import FieldExpr.Proofs.Program.Canonical
import FieldExpr.Proofs.Value.Reordering

/-!
# Programs that differ in their literals

Two programs match when they have the same nodes and their literals, place by
place, are related. Programs that are the same match, and all that their
literals may differ in beside the scale of decimals is the order in which
records list their fields (`Program.InOrder`).
-/

namespace FieldExpr.Program

/-- Programs with the same nodes and related literals. -/
inductive Matches (R : Value → Value → Prop) : Program → Program → Prop
  | identity : Matches R .identity .identity
  | lookup (b : Binding) : Matches R (.lookup b) (.lookup b)
  | literal {v v'} (shape : Shape) :
    R v v' → Matches R (.literal v shape) (.literal v' shape)
  | immediate {p p'} : Matches R p p' → Matches R (.immediate p) (.immediate p')
  | defer {p p'} : Matches R p p' → Matches R (.defer p) (.defer p')
  | functionDef (b : Binding) {body body' input input'} : Matches R body body' →
    Matches R input input' →
    Matches R (.functionDef b body input) (.functionDef b body' input')
  | pipe {l l' r r'} : Matches R l l' → Matches R r r' →
    Matches R (.pipe l r) (.pipe l' r')
  | equalTo (tag : EqualityTag) {l l' r r'} : Matches R l l' → Matches R r r' →
    Matches R (.equalTo tag l r) (.equalTo tag l' r')
  | binaryMath (op : BinaryMathOp) (tag : NumericTag) {l l' r r'} :
    Matches R l l' → Matches R r r' →
    Matches R (.binaryMath op tag l r) (.binaryMath op tag l' r')
  | unaryMath (op : UnaryMathOp) (tag : NumericTag) {p p'} : Matches R p p' →
    Matches R (.unaryMath op tag p) (.unaryMath op tag p')
  | binaryLogical (op : BinaryLogicalOp) {l l' r r'} : Matches R l l' →
    Matches R r r' →
    Matches R (.binaryLogical op l r) (.binaryLogical op l' r')
  | not {p p'} : Matches R p p' → Matches R (.not p) (.not p')
  | diverge {c c' t t' f f'} : Matches R c c' → Matches R t t' → Matches R f f' →
    Matches R (.diverge c t f) (.diverge c' t' f')
  | tupleGetIndex {p p'} (index : UInt64) : Matches R p p' →
    Matches R (.tupleGetIndex p index) (.tupleGetIndex p' index)

/-- The literals of two programs that are the same list the fields of their
records in the same order. -/
def InOrder (p q : Program) : Prop :=
  ∀ pair ∈ p.literals.zip q.literals, pair.1.InOrder pair.2

theorem matches_of_same {p q : Program} (same : p.same q = true) :
    Matches (fun v w => v.same w = true) p q := by
  induction p generalizing q with
  | identity =>
    cases q <;> simp only [Program.same, Bool.false_eq_true] at same
    exact .identity
  | lookup b =>
    cases q <;> simp only [Program.same, Bool.false_eq_true, beq_iff_eq] at same
    subst same
    exact .lookup b
  | literal v shape =>
    cases q <;> simp only [Program.same, Bool.false_eq_true, Bool.and_eq_true,
      beq_iff_eq] at same
    obtain ⟨values, rfl⟩ := same
    exact .literal shape values
  | immediate inner ih =>
    cases q <;> simp only [Program.same, Bool.false_eq_true] at same
    exact .immediate (ih same)
  | defer inner ih =>
    cases q <;> simp only [Program.same, Bool.false_eq_true] at same
    exact .defer (ih same)
  | functionDef b body input bodyIH inputIH =>
    cases q <;> simp only [Program.same, Bool.false_eq_true, Bool.and_eq_true,
      beq_iff_eq] at same
    obtain ⟨⟨rfl, bodies⟩, inputs⟩ := same
    exact .functionDef b (bodyIH bodies) (inputIH inputs)
  | pipe left right leftIH rightIH =>
    cases q <;> simp only [Program.same, Bool.false_eq_true, Bool.and_eq_true]
      at same
    exact .pipe (leftIH same.1) (rightIH same.2)
  | equalTo tag left right leftIH rightIH =>
    cases q <;> simp only [Program.same, Bool.false_eq_true, Bool.and_eq_true,
      beq_iff_eq] at same
    obtain ⟨⟨rfl, lefts⟩, rights⟩ := same
    exact .equalTo tag (leftIH lefts) (rightIH rights)
  | binaryMath op tag left right leftIH rightIH =>
    cases q <;> simp only [Program.same, Bool.false_eq_true, Bool.and_eq_true,
      beq_iff_eq] at same
    obtain ⟨⟨⟨rfl, rfl⟩, lefts⟩, rights⟩ := same
    exact .binaryMath op tag (leftIH lefts) (rightIH rights)
  | unaryMath op tag operand ih =>
    cases q <;> simp only [Program.same, Bool.false_eq_true, Bool.and_eq_true,
      beq_iff_eq] at same
    rename_i op' tag' operand'
    cases op
    cases op'
    obtain ⟨⟨-, rfl⟩, operands⟩ := same
    exact .unaryMath .negate tag (ih operands)
  | binaryLogical op left right leftIH rightIH =>
    cases q <;> simp only [Program.same, Bool.false_eq_true, Bool.and_eq_true,
      beq_iff_eq] at same
    obtain ⟨⟨rfl, lefts⟩, rights⟩ := same
    exact .binaryLogical op (leftIH lefts) (rightIH rights)
  | not operand ih =>
    cases q <;> simp only [Program.same, Bool.false_eq_true] at same
    exact .not (ih same)
  | diverge condition onTrue onFalse conditionIH trueIH falseIH =>
    cases q <;> simp only [Program.same, Bool.false_eq_true, Bool.and_eq_true]
      at same
    exact .diverge (conditionIH same.1.1) (trueIH same.1.2) (falseIH same.2)
  | tupleGetIndex tuple index ih =>
    cases q <;> simp only [Program.same, Bool.false_eq_true, Bool.and_eq_true,
      beq_iff_eq] at same
    obtain ⟨tuples, rfl⟩ := same
    exact .tupleGetIndex index (ih tuples)

namespace Matches

variable {R S : Value → Value → Prop} {p q : Program}

/-- Programs that match have as many literals. -/
theorem length (matching : Matches R p q) :
    p.literals.length = q.literals.length := by
  induction matching
    <;> simp_all only [literals, List.length_nil, List.length_cons,
      List.length_append]

/-- The pairs of literals of two parts in a row, if the first parts match. -/
theorem forall_zip_append {l l' : Program} (lefts : Matches R l l')
    {rs rs' : List Value} {holds : Value × Value → Prop} :
      (∀ pair ∈ (l.literals ++ rs).zip (l'.literals ++ rs'), holds pair) ↔
      (∀ pair ∈ l.literals.zip l'.literals, holds pair) ∧ ∀ pair ∈ rs.zip rs',
        holds pair := by
  rw [List.zip_append lefts.length, List.forall_mem_append]

/-- A relation of literals may be replaced by one that holds of each
pair of them. -/
theorem imp (matching : Matches R p q)
    (holds : ∀ pair ∈ p.literals.zip q.literals, R pair.1 pair.2 →
      S pair.1 pair.2) : Matches S p q := by
  induction matching with
  | identity => exact .identity
  | lookup b => exact .lookup b
  | literal shape related =>
    exact .literal shape (holds (_, _) (List.mem_singleton.mpr rfl) related)
  | immediate _ ih => exact .immediate (ih holds)
  | defer _ ih => exact .defer (ih holds)
  | functionDef b bodies _ bodyIH inputIH =>
    obtain ⟨body, input⟩ := bodies.forall_zip_append.mp holds
    exact .functionDef b (bodyIH body) (inputIH input)
  | pipe lefts _ leftIH rightIH =>
    obtain ⟨left, right⟩ := lefts.forall_zip_append.mp holds
    exact .pipe (leftIH left) (rightIH right)
  | equalTo tag lefts _ leftIH rightIH =>
    obtain ⟨left, right⟩ := lefts.forall_zip_append.mp holds
    exact .equalTo tag (leftIH left) (rightIH right)
  | binaryMath op tag lefts _ leftIH rightIH =>
    obtain ⟨left, right⟩ := lefts.forall_zip_append.mp holds
    exact .binaryMath op tag (leftIH left) (rightIH right)
  | unaryMath op tag _ ih => exact .unaryMath op tag (ih holds)
  | binaryLogical op lefts _ leftIH rightIH =>
    obtain ⟨left, right⟩ := lefts.forall_zip_append.mp holds
    exact .binaryLogical op (leftIH left) (rightIH right)
  | not _ ih => exact .not (ih holds)
  | diverge choosers trues _ chooserIH trueIH falseIH =>
    unfold literals at holds
    rw [List.append_assoc, List.append_assoc] at holds
    obtain ⟨chooser, branches⟩ := choosers.forall_zip_append.mp holds
    obtain ⟨onTrue, onFalse⟩ := trues.forall_zip_append.mp branches
    exact .diverge (chooserIH chooser) (trueIH onTrue) (falseIH onFalse)
  | tupleGetIndex index _ ih => exact .tupleGetIndex index (ih holds)

end Matches

/-- Well-formed programs that are the same match, with literals that are alike. -/
theorem matches_alike {p q : Program} (first : p.WellFormed) (second : q.WellFormed)
    (same : p.same q = true) : Matches (Value.Alike (p.InOrder q)) p q := by
  refine (matches_of_same same).imp ?_
  intro pair mem values
  obtain ⟨left, right⟩ := List.of_mem_zip mem
  exact ⟨first _ left, second _ right, values, fun inOrder => inOrder pair mem⟩

end FieldExpr.Program
