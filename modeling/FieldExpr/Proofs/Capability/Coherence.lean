import FieldExpr.Proofs.Capability.Widening
import FieldExpr.Proofs.Evaluation.Rule
import FieldExpr.Proofs.Value.Reordering

/-!
# Equality and order fit together

A tag of equality has an answer for the values of certain kinds
(`EqualityTag.kinds`) and for no others, and there it is an equivalence: it
compares one representative of each value (`form?`). A numeric tag puts the
numbers that it reads in the order of their worth, and equality under the tag of
the same name is equal worth. So of two numbers one is the greater, or they are
equal, and never two of these at once.
-/

namespace FieldExpr

namespace Number

/-- The value of a number, in units of the smallest place that decimals have. -/
def worth (n : Number) : Int :=
  n.toDecimal.units

/-- Numbers of either representation are in the order of their values. -/
theorem compare_eq_worth (l r : Number) :
    l.compare r = Ord.compare l.worth r.worth := by
  cases l with
  | integer n =>
    cases r with
    | integer m =>
      exact (Decimal.compare_ofInt64 n m).symm.trans (Decimal.compare_eq _ _)
    | decimal d => exact Decimal.compare_eq _ _
  | decimal d => exact Decimal.compare_eq _ _

theorem compare_eq_eq_iff (l r : Number) :
    l.compare r = .eq ↔ l.worth = r.worth := by
  rw [compare_eq_worth, Std.LawfulEqCmp.compare_eq_iff_eq]

theorem compare_integer_beq_eq (n m : Int64) :
    ((integer n).compare (integer m) == .eq) = (n == m) := by
  show (Ord.compare n.toInt m.toInt == .eq) = _
  rw [← Decimal.compare_ofInt64, Decimal.compare_ofInt64_beq_eq]

theorem compare_swap (l r : Number) : r.compare l = (l.compare r).swap := by
  rw [compare_eq_worth, compare_eq_worth]
  exact Std.OrientedOrd.eq_swap

end Number

/-! ## Equality -/

namespace EqualityTag

/-- The kinds of the values that a tag can compare. -/
def kinds : EqualityTag → List ValueKind
  | .unit => [.unit]
  | .boolean => [.boolean]
  | .integer => [.integer]
  | .decimal => [.integer, .decimal]
  | .string => [.string]
  | .structural =>
    [.unit, .boolean, .integer, .decimal, .string, .sequence, .record]

/-- The tag can compare the value. -/
def Accepts (tag : EqualityTag) (v : Value) : Prop :=
  v.kind ∈ tag.kinds

theorem accepts_structural (v : Value) : EqualityTag.structural.Accepts v := by
  unfold Accepts
  cases v <;> simp [kinds, Value.kind]

/-- The values that a tag compares, with one field for each name in every record. -/
abbrev Domain (tag : EqualityTag) : Type :=
  { v : Value // v.WellFormed ∧ tag.Accepts v }

/-- What a tag compares of a value, if it accepts the value: one representative
of all values equal to it. -/
def form? : EqualityTag → Value → Option Value
  | .structural, v => some v.canonical
  | .decimal, v =>
    (NumericTag.decimal.read? v).map fun n => .decimal n.toDecimal.normalize
  | tag, v => if v.kind ∈ tag.kinds then some v else none

variable {tag : EqualityTag} {a b c : Value}

/-- A tag has an answer exactly for two values that it accepts. -/
theorem isSome_equals?_iff (tag : EqualityTag) (a b : Value) :
    (tag.equals? a b).isSome = true ↔ tag.Accepts a ∧ tag.Accepts b := by
  unfold Accepts
  cases tag <;> cases a <;> cases b
    <;> simp [equals?, kinds, Value.kind, NumericTag.read?]

theorem exists_form? (accepts : tag.Accepts a) :
    ∃ form, tag.form? a = some form := by
  refine Option.isSome_iff_exists.mp ?_
  unfold Accepts at accepts
  cases tag <;> cases a <;> simp_all [form?, kinds, Value.kind, NumericTag.read?]

/-- Two values that both have a representative share it exactly when the two are
one. -/
theorem exists_form_iff {x y : Value} :
    (∃ form, some x = some form ∧ some y = some form) ↔ x = y := by
  constructor
  · rintro ⟨form, first, second⟩
    exact Option.some.inj (first.trans second.symm)
  · intro same
    exact ⟨y, congrArg some same, rfl⟩

/-- Numbers are equal as decimals exactly when they have one normal form. -/
theorem equals?_decimal (a b : Value) :
    EqualityTag.decimal.equals? a b = some true ↔
      ∃ form, EqualityTag.decimal.form? a = some form ∧
      EqualityTag.decimal.form? b = some form := by
  show ((NumericTag.decimal.read? a).bind fun x =>
      (NumericTag.decimal.read? b).bind fun y =>
      some (x.compare y == .eq)) = some true ↔
    ∃ form, (NumericTag.decimal.read? a).map
      (fun n => Value.decimal n.toDecimal.normalize) = some form ∧
      (NumericTag.decimal.read? b).map
        (fun n => Value.decimal n.toDecimal.normalize) = some form
  cases NumericTag.decimal.read? a with
  | none => simp
  | some x =>
    cases NumericTag.decimal.read? b with
    | none => simp
    | some y =>
      have normal : x.worth = y.worth ↔
          x.toDecimal.normalize = y.toDecimal.normalize := by
        rw [← Decimal.same_iff_normalize, Decimal.same_iff]
        rfl
      rw [Option.map_some, Option.map_some, exists_form_iff,
        Value.decimal.injEq, ← normal, ← Number.compare_eq_eq_iff]
      simp

/-- Two values are equal under a tag exactly when they have one representative. -/
theorem equals?_eq_true_iff (a_wf : a.WellFormed) (b_wf : b.WellFormed) :
    tag.equals? a b = some true ↔ ∃ form, tag.form? a = some form ∧
    tag.form? b = some form := by
  cases tag with
  | structural =>
    show some (a.same b) = some true ↔ ∃ form, some a.canonical = some form ∧
      some b.canonical = some form
    rw [exists_form_iff, Option.some_inj, Value.same_iff_canonical a b a_wf b_wf]
  | decimal => exact equals?_decimal a b
  | _ => cases a <;> cases b <;> simp [equals?, form?, kinds,
    Value.kind] <;> exact eq_comm

/-- A tag of equality answers where it accepts both values, and its answers are
those of an equivalence. -/
structure IsEquivalence (tag : EqualityTag) : Prop where
  defined (a b : Value) : (tag.equals? a b).isSome = true ↔
    tag.Accepts a ∧ tag.Accepts b
  equivalence : Equivalence fun a b : tag.Domain =>
    tag.equals? a.val b.val = some true

theorem isEquivalence (tag : EqualityTag) : tag.IsEquivalence where
  defined := isSome_equals?_iff tag
  equivalence := by
    refine ⟨?refl, ?symm, ?trans⟩
    case refl =>
      rintro ⟨a, wellFormed, accepts⟩
      obtain ⟨form, found⟩ := exists_form? accepts
      exact (equals?_eq_true_iff wellFormed wellFormed).mpr ⟨form, found, found⟩
    case symm =>
      rintro ⟨a, a_wf, _⟩ ⟨b, b_wf, _⟩ equal
      obtain ⟨form, first, second⟩ := (equals?_eq_true_iff a_wf b_wf).mp equal
      exact (equals?_eq_true_iff b_wf a_wf).mpr ⟨form, second, first⟩
    case trans =>
      rintro ⟨a, a_wf, _⟩ ⟨b, b_wf, _⟩ ⟨c, c_wf, _⟩ first second
      obtain ⟨form, of_a, of_b⟩ := (equals?_eq_true_iff a_wf b_wf).mp first
      obtain ⟨form', of_b', of_c⟩ := (equals?_eq_true_iff b_wf c_wf).mp second
      cases Option.some.inj (of_b.symm.trans of_b')
      exact (equals?_eq_true_iff a_wf c_wf).mpr ⟨form, of_a, of_c⟩

end EqualityTag

/-! ## Order -/

namespace NumericTag

/-- The tag puts the first of two values that it reads before the second one, or
finds them equal. -/
def AtMost (tag : NumericTag) (a b : Value) : Prop :=
  ∃ order, tag.onBoth? Number.compare a b = some order ∧ order.isLE = true

variable {tag : NumericTag} {a b c : Value} {x y z : Number}

theorem onBoth?_of_read {α : Type} (op : Number → Number → α)
    (left : tag.read? a = some x) (right : tag.read? b = some y) :
    tag.onBoth? op a b = some (op x y) := by
  unfold onBoth?
  rw [left, right]
  rfl

/-- An answer comes from two numbers that the tag has read. -/
theorem exists_of_onBoth? {α : Type} {op : Number → Number → α} {r : α}
    (answer : tag.onBoth? op a b = some r) :
    ∃ x y, tag.read? a = some x ∧ tag.read? b = some y ∧ r = op x y := by
  obtain ⟨x, left, answer⟩ := Option.bind_eq_some_iff.mp answer
  obtain ⟨y, right, answer⟩ := Option.bind_eq_some_iff.mp answer
  exact ⟨x, y, left, right, (Option.some.inj answer).symm⟩

theorem isSome_onBoth?_iff {α : Type} (op : Number → Number → α) (a b : Value) :
    (tag.onBoth? op a b).isSome = true ↔ (tag.read? a).isSome = true ∧
    (tag.read? b).isSome = true := by
  unfold onBoth?
  cases tag.read? a <;> cases tag.read? b <;> simp

/-- A value is at most another one exactly when both are read and it is worth at
most as much. -/
theorem atMost_iff :
    tag.AtMost a b ↔ ∃ x y, tag.read? a = some x ∧ tag.read? b = some y ∧
    x.worth ≤ y.worth := by
  have order_iff : ∀ x y : Number, (x.compare y).isLE = true ↔
      x.worth ≤ y.worth := by
    intro x y
    rw [Number.compare_eq_worth, Std.isLE_compare]
  constructor
  · rintro ⟨order, answer, le⟩
    obtain ⟨x, y, left, right, rfl⟩ := exists_of_onBoth? answer
    exact ⟨x, y, left, right, (order_iff x y).mp le⟩
  · rintro ⟨x, y, left, right, le⟩
    exact ⟨_, onBoth?_of_read Number.compare left right, (order_iff x y).mpr le⟩

theorem AtMost.trans (first : tag.AtMost a b) (second : tag.AtMost b c) :
    tag.AtMost a c := by
  rw [atMost_iff] at first second ⊢
  obtain ⟨x, y, of_a, of_b, low⟩ := first
  obtain ⟨y', z, of_b', of_c, high⟩ := second
  cases Option.some.inj (of_b.symm.trans of_b')
  exact ⟨x, z, of_a, of_c, Int.le_trans low high⟩

theorem AtMost.antisymm (first : tag.AtMost a b) (second : tag.AtMost b a) :
    tag.onBoth? Number.compare a b = some .eq := by
  rw [atMost_iff] at first second
  obtain ⟨x, y, of_a, of_b, low⟩ := first
  obtain ⟨y', x', of_b', of_a', high⟩ := second
  cases Option.some.inj (of_a.symm.trans of_a')
  cases Option.some.inj (of_b.symm.trans of_b')
  rw [onBoth?_of_read Number.compare of_a of_b,
    (Number.compare_eq_eq_iff x y).mpr (Int.le_antisymm low high)]

theorem AtMost.total (left : (tag.read? a).isSome = true)
    (right : (tag.read? b).isSome = true) :
    tag.AtMost a b ∨ tag.AtMost b a := by
  obtain ⟨x, of_a⟩ := Option.isSome_iff_exists.mp left
  obtain ⟨y, of_b⟩ := Option.isSome_iff_exists.mp right
  rw [atMost_iff, atMost_iff]
  rcases Int.le_total x.worth y.worth with low | high
  · exact .inl ⟨x, y, of_a, of_b, low⟩
  · exact .inr ⟨y, x, of_b, of_a, high⟩

/-- The tag of equality with the name of a numeric tag asks whether the numeric
tag finds two values equal. -/
theorem equals?_eq_map {equality : EqualityTag}
    (name : equality.name = tag.name) (a b : Value) :
    equality.equals? a b = (tag.onBoth? Number.compare a b).map (· == .eq) := by
  cases tag <;> cases equality <;> simp [NumericTag.name, EqualityTag.name] at name
  case integer.integer =>
    cases a <;> cases b
    case integer.integer n m =>
      exact congrArg some (Number.compare_integer_beq_eq n m).symm
    all_goals rfl
  case decimal.decimal =>
    show ((NumericTag.decimal.read? a).bind fun x =>
        (NumericTag.decimal.read? b).bind fun y =>
        some (x.compare y == .eq)) =
      ((NumericTag.decimal.read? a).bind fun x =>
        (NumericTag.decimal.read? b).bind fun y =>
        some (x.compare y)).map (· == .eq)
    cases NumericTag.decimal.read? a <;> cases NumericTag.decimal.read? b <;> rfl

theorem equals?_iff_compare {equality : EqualityTag}
    (name : equality.name = tag.name) (a b : Value) :
    equality.equals? a b = some true ↔
    tag.onBoth? Number.compare a b = some .eq := by
  rw [equals?_eq_map name, Option.map_eq_some_iff]
  simp

/-! ## Comparisons by nodes -/

/-- The node that compares two values as they are. -/
def comparison (tag : NumericTag) (op : BinaryMathOp) (a b : Value) : Program :=
  .binaryMath op tag (.literal a .any) (.literal b .any)

/-- The node that tests two values as they are for equality. -/
def equation (equality : EqualityTag) (a b : Value) : Program :=
  .equalTo equality (.literal a .any) (.literal b .any)

section

variable (config : EngineConfig) (context : Context) (subject : Value)

theorem evaluate_comparison (op : BinaryMathOp) (left : tag.read? a = some x)
    (right : tag.read? b = some y) :
    (tag.comparison op a b).evaluate config context subject =
      Rule.arithmetic (Settings.ofConfig config context) op x y := by
  refine Program.evaluate_of_node fun eval demand position scope => ?_
  unfold comparison
  rw [Run.node_binaryMath, Run.operand_literal, Run.operand_literal]
  have rule : Rule.binaryMath (Settings.ofConfig config context) op tag a b =
      Rule.arithmetic (Settings.ofConfig config context) op x y := by
    unfold Rule.binaryMath
    rw [left, right]
  rw [← rule]
  rfl

theorem evaluate_equation {equality : EqualityTag} {equal : Bool}
    (answer : equality.equals? a b = some equal) :
    (equation equality a b).evaluate config context subject =
      .ok (.boolean equal) := by
  refine Program.evaluate_of_node fun eval demand position scope => ?_
  unfold equation
  rw [Run.node_equalTo, Run.operand_literal, Run.operand_literal]
  have rule : Rule.equalTo equality a b = .ok equal := by
    unfold Rule.equalTo
    rw [answer]
    rfl
  show (do return .ready (.boolean
    (← Run.lift (Rule.equalTo equality a b))) : Run Slot) = _
  rw [rule]
  rfl

end

/-! ## Coherence -/

/-- A numeric tag puts the values that it reads in a total order, whose equality
is that of a tag of equality. Nodes that compare two such values find one of
them greater, or both equal, and `≥` where the second is not greater. -/
structure IsOrderUpTo (tag : NumericTag) (equality : EqualityTag) : Prop where
  defined (a b : Value) : (tag.onBoth? Number.compare a b).isSome = true ↔
    (tag.read? a).isSome = true ∧ (tag.read? b).isSome = true
  total {a b : Value} : (tag.read? a).isSome = true →
    (tag.read? b).isSome = true → tag.AtMost a b ∨ tag.AtMost b a
  trans {a b c : Value} : tag.AtMost a b → tag.AtMost b c → tag.AtMost a c
  antisymm {a b : Value} : tag.AtMost a b → tag.AtMost b a →
    equality.equals? a b = some true
  equal (a b : Value) : tag.onBoth? Number.compare a b = some .eq ↔
    equality.equals? a b = some true
  verdict (config : EngineConfig) (context : Context) (subject a b : Value) :
    (tag.read? a).isSome = true → (tag.read? b).isSome = true →
    ∃ greater less same : Bool,
      (tag.comparison .greaterThan a b).evaluate config context subject =
        .ok (.boolean greater) ∧
      (tag.comparison .greaterThan b a).evaluate config context subject =
        .ok (.boolean less) ∧
      (equation equality a b).evaluate config context subject =
        .ok (.boolean same) ∧
      [greater, less, same].count true = 1 ∧
      (tag.comparison .greaterThanEqual a b).evaluate config context subject =
        .ok (.boolean !less)

/-- Of the three answers about two numbers one is true, and the greater or equal
one is not less. -/
theorem verdict_of_read {equality : EqualityTag}
    (name : equality.name = tag.name) (config : EngineConfig)
    (context : Context) (subject : Value) (left : tag.read? a = some x)
    (right : tag.read? b = some y) :
    ∃ greater less same : Bool,
      (tag.comparison .greaterThan a b).evaluate config context subject =
        .ok (.boolean greater) ∧
      (tag.comparison .greaterThan b a).evaluate config context subject =
        .ok (.boolean less) ∧
      (equation equality a b).evaluate config context subject =
        .ok (.boolean same) ∧
      [greater, less, same].count true = 1 ∧
      (tag.comparison .greaterThanEqual a b).evaluate config context subject =
        .ok (.boolean !less) := by
  have answer : equality.equals? a b = some (x.compare y == .eq) := by
    rw [equals?_eq_map name, onBoth?_of_read Number.compare left right]
    rfl
  refine ⟨x.compare y == .gt, y.compare x == .gt, x.compare y == .eq, ?_, ?_,
    ?_, ?_, ?_⟩
  · exact evaluate_comparison config context subject .greaterThan left right
  · exact evaluate_comparison config context subject .greaterThan right left
  · exact evaluate_equation config context subject answer
  · rw [Number.compare_swap x y]
    cases x.compare y <;> rfl
  · rw [evaluate_comparison config context subject .greaterThanEqual left right,
      Number.compare_swap x y]
    show Except.ok (Value.boolean (x.compare y != .lt)) = _
    cases x.compare y <;> rfl

theorem isOrderUpTo {equality : EqualityTag} (name : equality.name = tag.name) :
    tag.IsOrderUpTo equality where
  defined := isSome_onBoth?_iff Number.compare
  total := AtMost.total
  trans := AtMost.trans
  antisymm first second :=
    (equals?_iff_compare name _ _).mpr (first.antisymm second)
  equal a b := (equals?_iff_compare name a b).symm
  verdict config context subject a b left right := by
    obtain ⟨x, of_a⟩ := Option.isSome_iff_exists.mp left
    obtain ⟨y, of_b⟩ := Option.isSome_iff_exists.mp right
    exact verdict_of_read name config context subject of_a of_b

end NumericTag

/-- Equality and order are coherent. Every tag of equality is an equivalence on
the values that it accepts, the structural tag on all of them, and has no answer
for others. Every numeric tag has a tag of equality of its name, and is a total
order up to it. -/
theorem equality_and_order_coherent :
    (∀ tag : EqualityTag, tag.IsEquivalence) ∧
    (∀ v, EqualityTag.structural.Accepts v) ∧
    ∀ tag : NumericTag, ∃ equality,
      EqualityTag.ofName? tag.name = some equality ∧ tag.IsOrderUpTo equality := by
  refine ⟨EqualityTag.isEquivalence, EqualityTag.accepts_structural, fun tag => ?_⟩
  cases tag with
  | integer => exact ⟨.integer, rfl, NumericTag.isOrderUpTo rfl⟩
  | decimal => exact ⟨.decimal, rfl, NumericTag.isOrderUpTo rfl⟩

/-- A record of a decimal and a sequence. -/
def priceFirst (price : Decimal) : EqualityTag.structural.Domain where
  val := .record [("price", .decimal price), ("tags", .sequence [.unit])]
  property := ⟨⟨by simp, trivial, ⟨trivial, trivial⟩, trivial⟩,
    EqualityTag.accepts_structural _⟩

/-- `priceFirst` with its fields in the other order. -/
def priceLast (price : Decimal) : EqualityTag.structural.Domain where
  val := .record [("tags", .sequence [.unit]), ("price", .decimal price)]
  property := ⟨⟨by simp, ⟨trivial, trivial⟩, trivial, trivial⟩,
    EqualityTag.accepts_structural _⟩

/-- Two records are equal through a third one that lists its fields in another
order and writes its decimal with another scale, and an integer and a decimal
have an order. -/
theorem equality_and_order_coherent_prices :
    (EqualityTag.structural.equals?
        (priceFirst ⟨false, 25, 1, by decide, by decide⟩).val
        (priceLast ⟨false, 250, 2, by decide, by decide⟩).val = some true ∧
      EqualityTag.structural.equals?
        (priceLast ⟨false, 250, 2, by decide, by decide⟩).val
        (priceFirst ⟨false, 2500, 3, by decide, by decide⟩).val = some true) ∧
    EqualityTag.structural.equals?
        (priceFirst ⟨false, 25, 1, by decide, by decide⟩).val
        (priceFirst ⟨false, 2500, 3, by decide, by decide⟩).val = some true ∧
    (NumericTag.decimal.AtMost (.integer 3)
      (.decimal ⟨false, 25, 1, by decide, by decide⟩) ∨
      NumericTag.decimal.AtMost (.decimal ⟨false, 25, 1, by decide, by decide⟩)
        (.integer 3)) := by
  refine ⟨by decide, ?_, ?_⟩
  · exact (equality_and_order_coherent.1 .structural).equivalence.trans
      (y := priceLast ⟨false, 250, 2, by decide, by decide⟩) (by decide) (by decide)
  · obtain ⟨equality, _, order⟩ := equality_and_order_coherent.2.2 .decimal
    exact order.total rfl rfl

end FieldExpr
