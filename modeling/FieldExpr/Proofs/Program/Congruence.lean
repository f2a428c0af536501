import FieldExpr.Proofs.Program.Nodes

/-!
# Programs with a hole

A hollow program has one place left open, at any position; filling it with two
programs gives two that are equal but for the parts at that place. Evaluation is
compared on `Congruent` programs, where the parts that differ may be anywhere
and any number, so that no proof about evaluation goes by the place of the hole.
-/

namespace FieldExpr

/-- A program with one place left open. -/
inductive Hollow where
  | hole
  | immediate (inner : Hollow)
  | defer (inner : Hollow)
  | functionBody (binding : Binding) (body : Hollow) (input : Program)
  | functionInput (binding : Binding) (body : Program) (input : Hollow)
  | pipeLeft (left : Hollow) (right : Program)
  | pipeRight (left : Program) (right : Hollow)
  | equalToLeft (tag : EqualityTag) (left : Hollow) (right : Program)
  | equalToRight (tag : EqualityTag) (left : Program) (right : Hollow)
  | binaryMathLeft (op : BinaryMathOp) (tag : NumericTag) (left : Hollow)
    (right : Program)
  | binaryMathRight (op : BinaryMathOp) (tag : NumericTag) (left : Program)
    (right : Hollow)
  | unaryMath (op : UnaryMathOp) (tag : NumericTag) (operand : Hollow)
  | binaryLogicalLeft (op : BinaryLogicalOp) (left : Hollow) (right : Program)
  | binaryLogicalRight (op : BinaryLogicalOp) (left : Program) (right : Hollow)
  | not (operand : Hollow)
  | divergeCondition (condition : Hollow) (onTrue onFalse : Program)
  | divergeTrue (condition : Program) (onTrue : Hollow) (onFalse : Program)
  | divergeFalse (condition onTrue : Program) (onFalse : Hollow)
  | tupleGetIndex (tuple : Hollow) (index : UInt64)

/-- The program with another one at the open place. -/
def Hollow.fill (q : Program) : Hollow → Program
  | .hole => q
  | .immediate inner => .immediate (inner.fill q)
  | .defer inner => .defer (inner.fill q)
  | .functionBody b body input => .functionDef b (body.fill q) input
  | .functionInput b body input => .functionDef b body (input.fill q)
  | .pipeLeft left right => .pipe (left.fill q) right
  | .pipeRight left right => .pipe left (right.fill q)
  | .equalToLeft tag left right => .equalTo tag (left.fill q) right
  | .equalToRight tag left right => .equalTo tag left (right.fill q)
  | .binaryMathLeft op tag left right => .binaryMath op tag (left.fill q) right
  | .binaryMathRight op tag left right => .binaryMath op tag left (right.fill q)
  | .unaryMath op tag operand => .unaryMath op tag (operand.fill q)
  | .binaryLogicalLeft op left right => .binaryLogical op (left.fill q) right
  | .binaryLogicalRight op left right => .binaryLogical op left (right.fill q)
  | .not operand => .not (operand.fill q)
  | .divergeCondition condition onTrue onFalse =>
    .diverge (condition.fill q) onTrue onFalse
  | .divergeTrue condition onTrue onFalse =>
    .diverge condition (onTrue.fill q) onFalse
  | .divergeFalse condition onTrue onFalse =>
    .diverge condition onTrue (onFalse.fill q)
  | .tupleGetIndex tuple index => .tupleGetIndex (tuple.fill q) index

namespace Program

/-- Programs that are equal but for related parts. -/
inductive Congruent (R : Program → Program → Prop) : Program → Program → Prop
  | part {p p'} : R p p' → Congruent R p p'
  | identity : Congruent R .identity .identity
  | lookup (b : Binding) : Congruent R (.lookup b) (.lookup b)
  | literal (v : Value) (shape : Shape) :
    Congruent R (.literal v shape) (.literal v shape)
  | immediate {p p'} : Congruent R p p' → Congruent R (.immediate p) (.immediate p')
  | defer {p p'} : Congruent R p p' → Congruent R (.defer p) (.defer p')
  | functionDef (b : Binding) {body body' input input'} :
    Congruent R body body' → Congruent R input input' →
    Congruent R (.functionDef b body input) (.functionDef b body' input')
  | pipe {l l' r r'} : Congruent R l l' → Congruent R r r' →
    Congruent R (.pipe l r) (.pipe l' r')
  | equalTo (tag : EqualityTag) {l l' r r'} : Congruent R l l' → Congruent R r r' →
    Congruent R (.equalTo tag l r) (.equalTo tag l' r')
  | binaryMath (op : BinaryMathOp) (tag : NumericTag) {l l' r r'} :
    Congruent R l l' → Congruent R r r' →
    Congruent R (.binaryMath op tag l r) (.binaryMath op tag l' r')
  | unaryMath (op : UnaryMathOp) (tag : NumericTag) {p p'} : Congruent R p p' →
    Congruent R (.unaryMath op tag p) (.unaryMath op tag p')
  | binaryLogical (op : BinaryLogicalOp) {l l' r r'} : Congruent R l l' →
    Congruent R r r' →
    Congruent R (.binaryLogical op l r) (.binaryLogical op l' r')
  | not {p p'} : Congruent R p p' → Congruent R (.not p) (.not p')
  | diverge {c c' t t' f f'} : Congruent R c c' → Congruent R t t' →
    Congruent R f f' →
    Congruent R (.diverge c t f) (.diverge c' t' f')
  | tupleGetIndex {p p'} (index : UInt64) : Congruent R p p' →
    Congruent R (.tupleGetIndex p index) (.tupleGetIndex p' index)

namespace Congruent

variable {R : Program → Program → Prop}

theorem refl (p : Program) : Congruent R p p := by
  induction p with
  | identity => exact .identity
  | lookup b => exact .lookup b
  | literal v shape => exact .literal v shape
  | immediate inner ih => exact .immediate ih
  | defer inner ih => exact .defer ih
  | functionDef b body input bodyIH inputIH => exact .functionDef b bodyIH inputIH
  | pipe left right leftIH rightIH => exact .pipe leftIH rightIH
  | equalTo tag left right leftIH rightIH => exact .equalTo tag leftIH rightIH
  | binaryMath op tag left right leftIH rightIH =>
    exact .binaryMath op tag leftIH rightIH
  | unaryMath op tag operand ih => exact .unaryMath op tag ih
  | binaryLogical op left right leftIH rightIH =>
    exact .binaryLogical op leftIH rightIH
  | not operand ih => exact .not ih
  | diverge condition onTrue onFalse conditionIH trueIH falseIH =>
    exact .diverge conditionIH trueIH falseIH
  | tupleGetIndex tuple index ih => exact .tupleGetIndex index ih

/-- Filling one hole with related programs gives programs that are equal
but for these. -/
theorem fill {q q' : Program} (related : R q q') (C : Hollow) :
    Congruent R (C.fill q) (C.fill q') := by
  induction C with
  | hole => exact .part related
  | immediate inner ih => exact .immediate ih
  | defer inner ih => exact .defer ih
  | functionBody b body input ih => exact .functionDef b ih (.refl input)
  | functionInput b body input ih => exact .functionDef b (.refl body) ih
  | pipeLeft left right ih => exact .pipe ih (.refl right)
  | pipeRight left right ih => exact .pipe (.refl left) ih
  | equalToLeft tag left right ih => exact .equalTo tag ih (.refl right)
  | equalToRight tag left right ih => exact .equalTo tag (.refl left) ih
  | binaryMathLeft op tag left right ih => exact .binaryMath op tag ih (.refl right)
  | binaryMathRight op tag left right ih => exact .binaryMath op tag (.refl left) ih
  | unaryMath op tag operand ih => exact .unaryMath op tag ih
  | binaryLogicalLeft op left right ih => exact .binaryLogical op ih (.refl right)
  | binaryLogicalRight op left right ih => exact .binaryLogical op (.refl left) ih
  | not operand ih => exact .not ih
  | divergeCondition condition onTrue onFalse ih =>
    exact .diverge ih (.refl onTrue) (.refl onFalse)
  | divergeTrue condition onTrue onFalse ih =>
    exact .diverge (.refl condition) ih (.refl onFalse)
  | divergeFalse condition onTrue onFalse ih =>
    exact .diverge (.refl condition) (.refl onTrue) ih
  | tupleGetIndex tuple index ih => exact .tupleGetIndex index ih

end Congruent

end Program

end FieldExpr
