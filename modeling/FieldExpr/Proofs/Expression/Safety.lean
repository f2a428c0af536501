import FieldExpr.Proofs.Capability.Numeric
import FieldExpr.Proofs.Expression.Preservation
import FieldExpr.Proofs.Expression.Typing

/-!
# Expressions with a type are safe

What an expression with a type comes to is a value of the type, or an error that
types do not rule out: arithmetic without a result, a position past the end. A
tag reads every value of the type that it is for, a literal can be rebuilt in
the shape of its type, and each rule takes operands of its types to a value of
its type. A suspended computation is safe at its type before it is demanded, so
it may be captured, passed on and dropped.

The subject of an expression changes under a pipe only, where the typing follows
it; a suspended computation keeps the subject of its place.
-/

namespace FieldExpr

/-- The errors that types do not rule out. -/
inductive EvaluationError.BeyondTypes : EvaluationError → Prop
  | arithmetic (operation : ArithmeticOp) (fault : ArithmeticFault) :
    BeyondTypes (.arithmeticError operation fault)
  | index (index : UInt64) (size : Nat) : BeyondTypes (.indexOutOfRange index size)

/-- A result that is good, or an error that types do not rule out. -/
inductive Safe {α : Type} (good : α → Prop) : Except EvaluationError α → Prop
  | ok {a} : good a → Safe good (.ok a)
  | error {e} : e.BeyondTypes → Safe good (.error e)

theorem Safe.bind {α β : Type} {good : α → Prop} {good' : β → Prop}
    {x : Except EvaluationError α} {f : α → Except EvaluationError β}
    (first : Safe good x) (rest : ∀ a, good a → Safe good' (f a)) :
    Safe good' (x >>= f) := by
  cases first with
  | ok h => exact rest _ h
  | error h => exact .error h

theorem Safe.mono {α : Type} {good good' : α → Prop}
    {x : Except EvaluationError α} (safe : Safe good x)
    (weaker : ∀ a, good a → good' a) : Safe good' x := by
  cases safe with
  | ok h => exact .ok (weaker _ h)
  | error h => exact .error h

/-- What stands for a value of a type: one that is there, or an outcome
that is safe. -/
inductive Meaning.HasType : Meaning → Ty → Prop
  | ready {v T} : v.HasType T → HasType (.ready v) T
  | suspended {outcome T} : Safe (Value.HasType · T) outcome →
    HasType (.suspended outcome) T

theorem Meaning.HasType.demand {slot : Meaning} {T : Ty} (typed : slot.HasType T) :
    Safe (Value.HasType · T) slot.demand := by
  cases typed with
  | ready h => exact .ok h
  | suspended h => exact h

theorem Meaning.HasType.any {slot : Meaning} {T : Ty} (typed : slot.HasType T) :
    slot.HasType .any := by
  cases typed with
  | ready _ => exact .ready (.any _)
  | suspended h => exact .suspended (h.mono fun _ _ => .any _)

/-- A slot that is safe is safe to demand. -/
theorem Safe.demand {x : Except EvaluationError Meaning} {T : Ty}
    (safe : Safe (Meaning.HasType · T) x) :
    Safe (Value.HasType · T) (x >>= Meaning.demand) :=
  safe.bind fun _ => Meaning.HasType.demand

/-- A value that is safe is safe to keep. -/
theorem Safe.ready {x : Except EvaluationError Value} {T : Ty}
    (safe : Safe (Value.HasType · T) x) :
    Safe (Meaning.HasType · T) (x >>= fun v => .ok (.ready v)) :=
  safe.bind fun _ typed => .ok (.ready typed)

/-! ## Values of types -/

namespace Value

variable {v l r : Value} {T A B : Ty}

/-- A literal of a type can be rebuilt in the type's shape. -/
theorem HasType.rebuild (typed : v.HasType T) :
    ∃ w, T.shape.rebuild? v = some w ∧ w.HasType T := by
  cases typed with
  | widened n => exact ⟨_, rfl, .decimal _⟩
  | pair first second => exact ⟨_, rfl, .pair first second⟩
  | sequence items => exact ⟨_, rfl, .sequence items⟩
  | any =>
    -- The shape of any value takes each kind of value as it is.
    cases v <;> exact ⟨_, rfl, .any _⟩
  | _ => exact ⟨_, rfl, by constructor⟩

/-- A numeric tag reads the values of its type, as numbers of its type. -/
theorem HasType.read {tag : NumericTag} (typed : v.HasType tag.ty) :
    ∃ n, tag.read? v = some n ∧ n.toValue.HasType tag.ty := by
  cases tag with
  | integer =>
    cases typed with
    | integer n => exact ⟨_, rfl, .integer n⟩
  | decimal =>
    cases typed with
    | decimal d => exact ⟨_, rfl, .decimal d⟩
    | widened n => exact ⟨_, rfl, .decimal _⟩

/-- An equality tag compares the values of the types that it is for. -/
theorem HasType.equals {tag : EqualityTag} (compares : tag.Compares T)
    (left : l.HasType T) (right : r.HasType T) : ∃ b, tag.equals? l r = some b := by
  cases compares with
  | unit => cases left; cases right; exact ⟨_, rfl⟩
  | boolean => cases left; cases right; exact ⟨_, rfl⟩
  | integer => cases left; cases right; exact ⟨_, rfl⟩
  | string => cases left; cases right; exact ⟨_, rfl⟩
  | structural => exact ⟨_, by unfold EqualityTag.equals?; rfl⟩
  | decimal =>
    -- Both are read as decimals, whichever of them are integers.
    cases left <;> cases right <;> exact ⟨_, rfl⟩

end Value

/-! ## Rules -/

namespace Number

variable {l r n : Number} {tag : NumericTag}

/-- Every number is a decimal, be it by widening. -/
theorem toValue_hasType_decimal (n : Number) : n.toValue.HasType .decimal := by
  cases n with
  | integer n => exact .widened n
  | decimal d => exact .decimal d

theorem exists_integer (typed : n.toValue.HasType .integer) :
    ∃ i, n = .integer i := by
  cases n with
  | integer i => exact ⟨i, rfl⟩
  | decimal d => cases typed

/-- An operation that computes integers as integers stays in the type of
its operands. -/
theorem hasType_of_byKind {integers : Int64 → Int64 → Option Number}
    {decimals : Decimal → Decimal → Option Decimal}
    (left : l.toValue.HasType tag.ty) (right : r.toValue.HasType tag.ty)
    (integer : ∀ n m k, integers n m = some k → ∃ i, k = .integer i)
    (done : byKind integers decimals l r = .ok n) : n.toValue.HasType tag.ty := by
  cases tag with
  | decimal => exact n.toValue_hasType_decimal
  | integer =>
    obtain ⟨i, rfl⟩ := exists_integer left
    obtain ⟨j, rfl⟩ := exists_integer right
    change orOverflow (integers i j) = .ok n at done
    cases found : integers i j with
    | none => rw [found] at done; cases done
    | some k =>
      rw [found] at done
      cases done
      obtain ⟨k, rfl⟩ := integer i j _ found
      exact .integer k

theorem hasType_of_add (left : l.toValue.HasType tag.ty)
    (right : r.toValue.HasType tag.ty) (done : l.add r = .ok n) :
    n.toValue.HasType tag.ty := by
  rw [add_eq_byKind] at done
  exact hasType_of_byKind left right (fun _ _ => integer_of_ofInt?) done

theorem hasType_of_multiply (left : l.toValue.HasType tag.ty)
    (right : r.toValue.HasType tag.ty) (done : l.multiply r = .ok n) :
    n.toValue.HasType tag.ty := by
  rw [multiply_eq_byKind] at done
  exact hasType_of_byKind left right (fun _ _ => integer_of_ofInt?) done

theorem hasType_of_divide {scale : Option Nat} (left : l.toValue.HasType tag.ty)
    (right : r.toValue.HasType tag.ty) (done : l.divide r scale = .ok n) :
    n.toValue.HasType tag.ty := by
  rw [divide_eq_byKind] at done
  split at done
  · cases done
  · exact hasType_of_byKind left right (fun _ _ => integer_of_ofInt?) done

theorem hasType_of_modulo (left : l.toValue.HasType tag.ty)
    (right : r.toValue.HasType tag.ty) (done : l.modulo r = .ok n) :
    n.toValue.HasType tag.ty := by
  rw [modulo_eq_byKind] at done
  split at done
  · cases done
  · refine hasType_of_byKind left right ?_ done
    intro n m k found
    obtain ⟨_, _, rest⟩ := Option.bind_eq_some_iff.mp found
    exact integer_of_ofInt? k rest

theorem hasType_of_negate {m : Number} (operand : m.toValue.HasType tag.ty)
    (done : m.negate = .ok n) :
    n.toValue.HasType tag.ty := by
  cases tag with
  | decimal => exact n.toValue_hasType_decimal
  | integer =>
    obtain ⟨i, rfl⟩ := exists_integer operand
    change orOverflow (ofInt? (-i.toInt)) = .ok n at done
    cases found : ofInt? (-i.toInt) with
    | none => rw [found] at done; cases done
    | some k =>
      rw [found] at done
      cases done
      obtain ⟨k, rfl⟩ := integer_of_ofInt? _ found
      exact .integer k

end Number

namespace Rule

variable {settings : Settings} {v l r : Value} {T A B : Ty}

theorem safe_literal (typed : v.HasType T) :
    Safe (Value.HasType · T) (literal T.shape v) := by
  obtain ⟨w, rebuilt, typed'⟩ := typed.rebuild
  unfold literal
  rw [rebuilt]
  exact .ok typed'

/-- A truth value that is safe is safe to take a condition from. -/
theorem safe_bind_condition {x : Except EvaluationError Value} (operator : Operator)
    (safe : Safe (Value.HasType · .boolean) x) :
    Safe (fun _ => True) (x >>= condition operator) := by
  refine safe.bind fun v typed => ?_
  cases typed with
  | boolean b => exact .ok trivial

theorem safe_equalTo {tag : EqualityTag} (compares : tag.Compares T)
    (left : l.HasType T) (right : r.HasType T) :
    Safe (fun _ => True) (equalTo tag l r) := by
  obtain ⟨b, equal⟩ := Value.HasType.equals compares left right
  unfold equalTo
  rw [equal]
  exact .ok trivial

theorem safe_orFault {operation : ArithmeticOp} {x : Except ArithmeticFault Number}
    (typed : ∀ n, x = .ok n → n.toValue.HasType T) :
    Safe (Value.HasType · T) (orFault operation x) := by
  cases x with
  | error fault => exact .error (.arithmetic operation fault)
  | ok n => exact .ok (typed n rfl)

theorem safe_binaryMath {op : BinaryMathOp} {tag : NumericTag}
    (left : l.HasType tag.ty) (right : r.HasType tag.ty) :
    Safe (Value.HasType · (op.resultTy tag)) (binaryMath settings op tag l r) := by
  obtain ⟨a, read, left⟩ := left.read
  obtain ⟨b, read', right⟩ := right.read
  have computed : binaryMath settings op tag l r = arithmetic settings op a b := by
    unfold binaryMath
    rw [read, read']
  rw [computed]
  cases op with
  | add => exact safe_orFault fun _ => Number.hasType_of_add left right
  | multiply => exact safe_orFault fun _ => Number.hasType_of_multiply left right
  | divide => exact safe_orFault fun _ => Number.hasType_of_divide left right
  | modulo => exact safe_orFault fun _ => Number.hasType_of_modulo left right
  | greaterThan => exact .ok (.boolean _)
  | greaterThanEqual => exact .ok (.boolean _)

theorem safe_unaryMath {op : UnaryMathOp} {tag : NumericTag}
    (typed : v.HasType tag.ty) :
    Safe (Value.HasType · tag.ty) (unaryMath op tag v) := by
  obtain ⟨n, read, typed⟩ := typed.read
  unfold unaryMath
  rw [read]
  cases op with
  | negate => exact safe_orFault fun _ => Number.hasType_of_negate typed

theorem safe_select_zero (typed : v.HasType (.pair A B)) :
    Safe (Value.HasType · A) (select 0 v) := by
  cases typed with
  | pair first _ =>
    exact .ok first

theorem safe_select_one (typed : v.HasType (.pair A B)) :
    Safe (Value.HasType · B) (select 1 v) := by
  cases typed with
  | pair _ second =>
    exact .ok second

/-- A sequence has elements of its element type, as far as it has any. -/
theorem safe_select (index : UInt64)
    (typed : v.HasType (.sequence T)) :
    Safe (Value.HasType · T) (select index v) := by
  cases typed with
  | @sequence items _ each =>
    change Safe _ (orFail (.indexOutOfRange index items.length) items[index.toNat]?)
    cases found : items[index.toNat]? with
    | none => exact .error (.index index items.length)
    | some item => exact .ok (each item (List.mem_of_getElem? found))

end Rule

/-! ## Expressions -/

/-- What the names in scope stand for, of their types. -/
def Environment.Fits (env : Environment) (Γ : Typing) : Prop :=
  ∀ name T, Γ.lookup name = some T → ∃ slot, env.lookup name = some slot ∧
    slot.HasType T

theorem Environment.Fits.bind {env : Environment} {Γ : Typing}
    (fits : env.Fits Γ) (parameter : String) {slot : Meaning} {T : Ty}
    (typed : slot.HasType T) :
    Environment.Fits ((parameter, slot) :: env) ((parameter, T) :: Γ) := by
  intro name A found
  rw [List.lookup_cons] at found ⊢
  split at found
  · cases found
    exact ⟨slot, rfl, typed⟩
  · exact fits name A found

/-- A literal operand can be rebuilt, to a value of every type that the literal
has. -/
theorem Expression.HasType.rebuild {Γ : Typing} {S T : Ty} {e : Expression}
    {v : Value} {shape : Shape} :
    e.HasType Γ S T → e = .literal v shape →
    Safe (Value.HasType · T) (Rule.literal shape v)
  | .literal typed, same => by
    cases same
    exact Rule.safe_literal typed
  | .dynamic inner, same => (inner.rebuild same).mono fun _ _ => .any _
  | .identity, same | .var _, same | .immediate _, same | .defer _, same
  | .apply _ _, same | .pipe _ _, same
  | .equalTo _ _ _, same | .binaryMath _ _, same | .unaryMath _, same
  | .binaryLogical _ _, same | .not _, same
  | .diverge _ _ _, same | .first _, same | .second _, same | .get _ _, same =>
    nomatch same

/-- An operand is safe at its type if its value is, whether it is a
literal or not. -/
theorem Expression.HasType.operandOr {Γ : Typing} {S T : Ty}
    {value : Except EvaluationError Value} {e : Expression}
    (typed : e.HasType Γ S T) (safe : Safe (Value.HasType · T) value) :
    Safe (Value.HasType · T) (e.operandOr value) := by
  cases e with
  | literal v shape => exact typed.rebuild rfl
  | _ => exact safe

mutual

/-- What an expression means is safe at its type, where names stand for what is
safe at theirs. -/
theorem Expression.HasType.safe (settings : Settings) {Γ : Typing} {S T : Ty}
      {e : Expression} : e.HasType Γ S T → ∀ {env : Environment} {subject : Value},
      env.Fits Γ → subject.HasType S →
      Safe (Meaning.HasType · T) (e.meaning settings env subject)
  | .identity, _, _, _, typed => .ok (.ready typed)
  | .var found, _, _, fits, _ => by
    obtain ⟨slot, bound, typed⟩ := fits _ _ found
    simp only [Expression.meaning, bound]
    exact .ok typed
  | .literal typed, _, _, _, _ => .ok (.ready typed)
  | .immediate inner, _, _, fits, typed =>
    (inner.safe settings fits typed).demand.ready
  | .defer inner, _, _, fits, typed =>
    .ok (.suspended (inner.safe settings fits typed).demand)
  | .apply function argument, _, _, fits, typed =>
    (argument.safe settings fits typed).bind fun _ slot =>
      function.safe settings fits typed slot
  | .pipe left right, _, _, fits, typed =>
    (left.safe settings fits typed).demand.bind fun _ subject =>
      right.safe settings fits subject
  | .equalTo compares left right, _, _, fits, typed => by
    have l := left.operandOr (left.safe settings fits typed).demand
    have r := right.operandOr (right.safe settings fits typed).demand
    refine l.bind fun _ l => r.bind fun _ r => ?_
    exact (Rule.safe_equalTo compares l r).bind fun b _ => .ok (.ready (.boolean b))
  | .binaryMath left right, _, _, fits, typed => by
    have l := left.operandOr (left.safe settings fits typed).demand
    have r := right.operandOr (right.safe settings fits typed).demand
    exact l.bind fun _ l => r.bind fun _ r => (Rule.safe_binaryMath l r).ready
  | .unaryMath operand, _, _, fits, typed => by
    have v := operand.operandOr (operand.safe settings fits typed).demand
    exact v.bind fun _ v => (Rule.safe_unaryMath v).ready
  | @Expression.HasType.binaryLogical op _ _ _ _ left right, _, _, fits, typed => by
    have l := Rule.safe_bind_condition (Rule.connective op)
      (left.safe settings fits typed).demand
    have r := Rule.safe_bind_condition (Rule.connective op)
      (right.safe settings fits typed).demand
    refine l.bind fun l _ => ?_
    split
    · exact .ok (.ready (.boolean l))
    · exact r.bind fun r _ => .ok (.ready (.boolean r))
  | .not operand, _, _, fits, typed => by
    have b := Rule.safe_bind_condition .not
      (operand.safe settings fits typed).demand
    exact b.bind fun b _ => .ok (.ready (.boolean !b))
  | .diverge condition onTrue onFalse, _, _, fits, typed => by
    have choice :=
      Rule.safe_bind_condition .diverge (condition.safe settings fits typed).demand
    refine choice.bind fun choice _ => ?_
    split
    · exact (onTrue.safe settings fits typed).demand.ready
    · exact (onFalse.safe settings fits typed).demand.ready
  | .first tuple, _, _, fits, typed =>
    (tuple.safe settings fits typed).demand.bind fun _ v =>
      (Rule.safe_select_zero v).ready
  | .second tuple, _, _, fits, typed =>
    (tuple.safe settings fits typed).demand.bind fun _ v =>
      (Rule.safe_select_one v).ready
  | .get index tuple, _, _, fits, typed =>
    (tuple.safe settings fits typed).demand.bind fun _ v =>
      (Rule.safe_select index v).ready
  | .dynamic inner, _, _, fits, typed =>
    (inner.safe settings fits typed).mono fun _ => Meaning.HasType.any

/-- What a function means at an argument of its type is safe at the type
of its results. -/
theorem Function.HasType.safe (settings : Settings) {Γ : Typing} {S A B : Ty}
      {f : Function} : f.HasType Γ S A B → ∀ {env : Environment} {subject : Value}
      {slot : Meaning}, env.Fits Γ → subject.HasType S → slot.HasType A →
      Safe (Meaning.HasType · B) (f.meaning settings env subject slot)
  | .named body, _, _, _, fits, typed, argument =>
    body.safe settings (fits.bind _ argument) typed
  | .andThen first second, _, _, _, fits, typed, argument =>
    (first.safe settings fits typed argument).bind fun _ slot =>
      second.safe settings fits typed slot

end

/-! ## Evaluations -/

namespace Expression

/-- A closed expression with a type evaluates to a value of its type against every
subject of the subject's type, or else some arithmetic has no result, a position
is past the end of a sequence, or the nesting exceeds a limit that does not allow
for all nodes. No operand is of a kind that its operator does not take, no literal
has another shape than its own, and no binding is missing. There are as many
bindings as words, so an expression with more definitions is left out. -/
theorem evaluate_of_hasType {e : Expression} {S T : Ty} (typed : e.HasType [] S T)
    (room : e.definitions < UInt64.size) (config : EngineConfig)
    (context : Context) {subject : Value} (ofType : subject.HasType S) :
    (∃ v, e.compile.evaluate config context subject = .ok v ∧ v.HasType T) ∨
      (∃ operation fault,
        e.compile.evaluate config context subject =
          .error (.arithmeticError operation fault)) ∨
      (∃ index size, e.compile.evaluate config context subject =
        .error (.indexOutOfRange index size)) ∨
      config.maxDepth.toNat + 1 < e.compile.nodeCount ∧
        e.compile.evaluate config context subject =
          .error (.depthLimitExceeded config.maxDepth.toNat) := by
  have fits : Environment.Fits [] [] := nofun
  have safe : Safe (Value.HasType · T)
      (e.interpret (Settings.ofConfig config context) subject) :=
    (typed.safe _ fits ofType).demand
  rcases evaluationUnder_eq_outcome (Settings.ofConfig config context) e.compile
      context subject with
    outcome | short
  · have same : e.compile.evaluate config context subject =
        e.interpret (Settings.ofConfig config context) subject :=
      outcome.trans (outcome_compile _ typed.closedIn room _ subject)
    rw [same]
    generalize e.interpret (Settings.ofConfig config context) subject =
      result at safe
    cases safe with
    | ok v => exact .inl ⟨_, rfl, v⟩
    | error e =>
      cases e with
      | arithmetic operation fault => exact .inr (.inl ⟨operation, fault, rfl⟩)
      | index index size => exact .inr (.inr (.inl ⟨index, size, rfl⟩))
  · exact .inr (.inr (.inr short))

/-- Half of the first price of a list, from four pieces on, and all of
it for fewer. -/
def discounted : Expression :=
  .letIn "price" (.defer (.tupleGetIndex (.second .identity) 0))
    (.diverge (.binaryMath .greaterThan .integer (.first .identity) (.integer 3))
      (.binaryMath .divide .decimal (.var "price") (.literal (.integer 2) .decimal))
      (.var "price"))

theorem hasType_discounted :
    discounted.HasType [] (.pair .integer (.sequence .decimal)) .decimal := by
  have price : Expression.HasType (.tupleGetIndex (.second .identity) 0) []
      (.pair .integer (.sequence .decimal)) .decimal := .get 0 (.second .identity)
  have many : Expression.HasType
      (.binaryMath .greaterThan .integer (.first .identity) (.integer 3))
      [("price", .decimal)] (.pair .integer (.sequence .decimal))
      (BinaryMathOp.greaterThan.resultTy .integer) :=
    .binaryMath (.first .identity) (.literal (.integer 3))
  have half : Expression.HasType
      (.binaryMath .divide .decimal (.var "price") (.literal (.integer 2) .decimal))
      [("price", .decimal)] (.pair .integer (.sequence .decimal))
      (BinaryMathOp.divide.resultTy .decimal) :=
    .binaryMath (.var rfl) (.literal (.widened 2))
  exact .apply (.named (.diverge many half (.var rfl))) (.defer price)

/-- Five pieces with prices that are integers give a decimal. -/
theorem evaluate_discounted :
    ∃ v, discounted.compile.evaluate {} {}
      (.pair (.integer 5) (.sequence [.integer 7])) = .ok v ∧
      v.HasType .decimal := by
  have ofType : (Value.pair (.integer 5) (.sequence [.integer 7])).HasType
      (.pair .integer (.sequence .decimal)) := by
    refine .pair (.integer 5) (.sequence ?_)
    intro v mem
    cases List.mem_singleton.mp mem
    exact .widened 7
  have value : discounted.compile.evaluate {} {}
      (.pair (.integer 5) (.sequence [.integer 7])) =
      .ok (.decimal ⟨false, 350, 2, by decide, by decide⟩) := rfl
  rcases evaluate_of_hasType hasType_discounted (by decide) {} {} ofType with
    typed | ⟨_, _, error⟩ | ⟨_, _, error⟩ | ⟨_, error⟩
  · exact typed
  all_goals
    rw [value] at error
    cases error

end Expression

end FieldExpr
