import FieldExpr.Expression.Basic
import FieldExpr.Proofs.Lookup

/-!
# Types of expressions

The types that expressions are built at. They are not part of an expression:
only the tags of its nodes and the shapes of its literals are left of them. A
type has the values that its expressions may come to, so an integer is a decimal
too, a pair is a sequence of two, and forgetting a type leaves all values.
-/

namespace FieldExpr

/-- The type of an expression. -/
inductive Ty where
  | unit | boolean | integer | decimal | string
  | pair (first second : Ty)
  | sequence (element : Ty)
  | record
  | any

/-- The shape that literals of a type carry. -/
def Ty.shape : Ty → Shape
  | .unit => .unit
  | .boolean => .boolean
  | .integer => .integer
  | .decimal => .decimal
  | .string => .string
  | .pair _ _ => .pair
  | .sequence _ => .sequence
  | .record => .record
  | .any => .any

/-- A value is one of the type's. -/
inductive Value.HasType : Value → Ty → Prop
  | unit : HasType .unit .unit
  | boolean (b : Bool) : HasType (.boolean b) .boolean
  | integer (n : Int64) : HasType (.integer n) .integer
  | decimal (d : Decimal) : HasType (.decimal d) .decimal
  /-- Integers are widened where a decimal is read. -/
  | widened (n : Int64) : HasType (.integer n) .decimal
  | string (s : String) : HasType (.string s) .string
  | pair {first second A B} : HasType first A → HasType second B →
    HasType (.sequence [first, second]) (.pair A B)
  | sequence {items T} : (∀ v ∈ items, HasType v T) →
    HasType (.sequence items) (.sequence T)
  | record (fields : List (String × Value)) : HasType (.record fields) .record
  | any (v : Value) : HasType v .any

/-- The type that a numeric tag is for. -/
def NumericTag.ty : NumericTag → Ty
  | .integer => .integer
  | .decimal => .decimal

/-- The type of what a binary operation under a tag gives. -/
def BinaryMathOp.resultTy (tag : NumericTag) : BinaryMathOp → Ty
  | .add | .multiply | .divide | .modulo => tag.ty
  | .greaterThan | .greaterThanEqual => .boolean

/-- The types that an equality tag is for. -/
inductive EqualityTag.Compares : EqualityTag → Ty → Prop
  | unit : Compares .unit .unit
  | boolean : Compares .boolean .boolean
  | integer : Compares .integer .integer
  | decimal : Compares .decimal .decimal
  | string : Compares .string .string
  | structural (T : Ty) : Compares .structural T

/-- The types of the names in scope, the innermost first. -/
abbrev Typing := List (String × Ty)

mutual

/-- An expression has a type, where names have types and the subject has one. -/
inductive Expression.HasType : Expression → Typing → Ty → Ty → Prop
  | identity {Γ S} : Expression.identity.HasType Γ S S
  | var {name Γ S T} : Γ.lookup name = some T → (Expression.var name).HasType Γ S T
  | literal {v Γ S T} : v.HasType T → (Expression.literal v T.shape).HasType Γ S T
  | immediate {inner : Expression} {Γ S T} : inner.HasType Γ S T →
    (Expression.immediate inner).HasType Γ S T
  | defer {inner : Expression} {Γ S T} : inner.HasType Γ S T →
    (Expression.defer inner).HasType Γ S T
  | apply {function : Function} {argument : Expression} {Γ S A B} :
    function.HasType Γ S A B →
    argument.HasType Γ S A → (Expression.apply function argument).HasType Γ S B
  /-- The left part is the subject of the right one. -/
  | pipe {left right : Expression} {Γ S A B} : left.HasType Γ S A →
    right.HasType Γ A B →
    (Expression.pipe left right).HasType Γ S B
  | equalTo {tag} {left right : Expression} {Γ S T} : tag.Compares T →
    left.HasType Γ S T →
    right.HasType Γ S T → (Expression.equalTo tag left right).HasType Γ S .boolean
  | binaryMath {op tag} {left right : Expression} {Γ S} : left.HasType Γ S tag.ty →
    right.HasType Γ S tag.ty →
    (Expression.binaryMath op tag left right).HasType Γ S (op.resultTy tag)
  | unaryMath {op tag} {operand : Expression} {Γ S} : operand.HasType Γ S tag.ty →
    (Expression.unaryMath op tag operand).HasType Γ S tag.ty
  | binaryLogical {op} {left right : Expression} {Γ S} : left.HasType Γ S .boolean →
    right.HasType Γ S .boolean →
    (Expression.binaryLogical op left right).HasType Γ S .boolean
  | not {operand : Expression} {Γ S} : operand.HasType Γ S .boolean →
    (Expression.not operand).HasType Γ S .boolean
  | diverge {condition onTrue onFalse : Expression} {Γ S T} :
    condition.HasType Γ S .boolean →
    onTrue.HasType Γ S T → onFalse.HasType Γ S T →
    (Expression.diverge condition onTrue onFalse).HasType Γ S T
  | first {tuple : Expression} {Γ S A B} : tuple.HasType Γ S (.pair A B) →
    tuple.first.HasType Γ S A
  | second {tuple : Expression} {Γ S A B} : tuple.HasType Γ S (.pair A B) →
    tuple.second.HasType Γ S B
  | get {tuple : Expression} {Γ S T} (index : UInt64) :
    tuple.HasType Γ S (.sequence T) →
    (Expression.tupleGetIndex tuple index).HasType Γ S T
  /-- Forgetting a type leaves no trace in the expression. -/
  | dynamic {e : Expression} {Γ S T} : e.HasType Γ S T → e.HasType Γ S .any

/-- A function takes arguments of one type to results of another. -/
inductive Function.HasType : Function → Typing → Ty → Ty → Ty → Prop
  | named {parameter} {body : Expression} {Γ S A B} :
    body.HasType ((parameter, A) :: Γ) S B →
    (Function.named parameter body).HasType Γ S A B
  | andThen {first second : Function} {Γ S A B C} : first.HasType Γ S A B →
    second.HasType Γ S B C →
    (Function.andThen first second).HasType Γ S A C

end

/-! ## Names -/

/-- A name that has a type is in scope. -/
theorem Typing.mem_names {Γ : Typing} {name : String} {T : Ty}
    (found : Γ.lookup name = some T) :
    name ∈ Γ.map Prod.fst :=
  List.mem_map.mpr ⟨(name, T), mem_of_lookup found, rfl⟩

mutual

/-- An expression with a type has no names but those in scope. -/
theorem Expression.HasType.closedIn {Γ : Typing} {S T : Ty} {e : Expression} :
    e.HasType Γ S T → e.ClosedIn (Γ.map Prod.fst)
  | .identity => trivial
  | .var found => Typing.mem_names found
  | .literal _ => trivial
  | .immediate inner => inner.closedIn
  | .defer inner => inner.closedIn
  | .apply function argument => ⟨argument.closedIn, function.closedIn⟩
  | .pipe left right => ⟨left.closedIn, right.closedIn⟩
  | .equalTo _ left right => ⟨left.closedIn, right.closedIn⟩
  | .binaryMath left right => ⟨left.closedIn, right.closedIn⟩
  | .unaryMath operand => operand.closedIn
  | .binaryLogical left right => ⟨left.closedIn, right.closedIn⟩
  | .not operand => operand.closedIn
  | .diverge condition onTrue onFalse =>
    ⟨condition.closedIn, onTrue.closedIn, onFalse.closedIn⟩
  | .first tuple => tuple.closedIn
  | .second tuple => tuple.closedIn
  | .get _ tuple => tuple.closedIn
  | .dynamic inner => inner.closedIn

theorem Function.HasType.closedIn {Γ : Typing} {S A B : Ty} {f : Function} :
    f.HasType Γ S A B → f.ClosedIn (Γ.map Prod.fst)
  | .named body => body.closedIn
  | .andThen first second => ⟨first.closedIn, second.closedIn⟩

end

end FieldExpr
