import FieldExpr.Capability.Equality
import FieldExpr.Proofs.Capability.Integers
import FieldExpr.Proofs.Capability.Numeric

/-!
# Widening integers to decimals

A decimal tag reads integers as decimals of the same value and computes with
them exactly as the integer tag does, wherever that one comes to a number: every
machine integer fits a decimal, so nothing is rounded. The order and the
equality of integers do not depend on the tag either, and nor does the fault of
a zero divisor. Only overflow does, as a decimal has room for more.
-/

namespace FieldExpr

namespace Decimal

/-- A widened integer is worth as many units as its value has. -/
theorem units_ofInt64 (n : Int64) :
    (ofInt64 n).units = n.toInt * (tenPow maxScale : Nat) := by
  show signed (decide (n.toInt < 0)) (n.toInt.natAbs * tenPow maxScale) = _
  rw [← signed_mul, signed_natAbs]

/-- A result that is worth as much as an integer is a decimal equal to it. -/
theorem same_ofInt64_of_units {x : Option Decimal} {n : Int64}
    (units : x.map Decimal.units = some (ofInt64 n).units) :
    ∃ d, x = some d ∧ d.same (ofInt64 n) = true := by
  obtain ⟨d, rfl, worth⟩ := Option.map_eq_some_iff.mp units
  exact ⟨d, rfl, same_iff.mpr worth⟩

variable {a b n : Int64}

theorem add_ofInt64 (sum : n.toInt = a.toInt + b.toInt) :
    ∃ d, (ofInt64 a).add (ofInt64 b) = some d ∧ d.same (ofInt64 n) = true := by
  refine same_ofInt64_of_units ?_
  have units : (ofInt64 a).units + (ofInt64 b).units = (ofInt64 n).units := by
    rw [units_ofInt64, units_ofInt64, units_ofInt64, sum, Int.add_mul]
  rw [units_add, units, nearestTo_units]

theorem mul_ofInt64 (product : n.toInt = a.toInt * b.toInt) :
    ∃ d, (ofInt64 a).mul (ofInt64 b) = some d ∧ d.same (ofInt64 n) = true := by
  refine same_ofInt64_of_units ?_
  have ratio : (ofInt64 a).units * (ofInt64 b).units * (tenPow maxScale : Nat) =
      (ofInt64 n).units * (tenPow (maxScale + maxScale) : Nat) := by
    rw [units_ofInt64, units_ofInt64, units_ofInt64, product, tenPow_add,
      Int.natCast_mul]
    ac_rfl
  rw [units_mul, nearestTo_eq_of_ratio (tenPow_pos _) (tenPow_pos _) ratio,
    nearestTo_units]

theorem mod_ofInt64 (divisor : (ofInt64 b).mantissa ≠ 0)
    (remainder : n.toInt = a.toInt.tmod b.toInt) :
    ∃ d, (ofInt64 a).mod (ofInt64 b) = some d ∧ d.same (ofInt64 n) = true := by
  refine same_ofInt64_of_units ?_
  rw [units_mod _ divisor, units_ofInt64, units_ofInt64, units_ofInt64,
    remainder, Int.mul_comm a.toInt, Int.mul_comm b.toInt,
    Int.mul_tmod_mul_of_pos _ _ (Int.natCast_pos.mpr (tenPow_pos _)), Int.mul_comm]

theorem neg_ofInt64 (opposite : n.toInt = -a.toInt) :
    (ofInt64 a).neg.same (ofInt64 n) = true := by
  rw [same_iff, units_neg, units_ofInt64, units_ofInt64, opposite, Int.neg_mul]

theorem compare_ofInt64 (a b : Int64) :
    (ofInt64 a).compare (ofInt64 b) = Ord.compare a.toInt b.toInt := by
  rw [compare_eq, units_ofInt64, units_ofInt64, compare_mul _ _ (tenPow_pos _)]

/-- Two integers are widened to equal decimals only if they are equal. -/
theorem compare_ofInt64_beq_eq (a b : Int64) :
    ((ofInt64 a).compare (ofInt64 b) == .eq) = (a == b) := by
  rw [compare_ofInt64, Bool.eq_iff_iff, beq_iff_eq, beq_iff_eq,
    Std.LawfulEqCmp.compare_eq_iff_eq, Int64.toInt_inj]

end Decimal

namespace Number

/-- A result that was not overflow. -/
theorem eq_some_of_orOverflow {x : Option Number} {n : Number}
    (ok : orOverflow x = .ok n) : x = some n := by
  cases x with
  | none => cases ok
  | some m =>
    cases ok
    rfl

/-- A decimal result, as the number that a decimal operation gives. -/
theorem ok_of_decimal {x : Option Decimal} {P : Decimal → Prop}
    (result : ∃ d, x = some d ∧ P d) :
    ∃ d, orOverflow (x.map .decimal) = .ok (.decimal d) ∧ P d := by
  obtain ⟨d, rfl, holds⟩ := result
  exact ⟨d, rfl, holds⟩

/-- Widening keeps zero and makes no other. -/
theorem isZero_widened (n : Int64) :
    (decimal (.ofInt64 n)).isZero = (integer n).isZero := by
  rw [Bool.eq_iff_iff, isZero_iff, isZero_iff]
  rfl

variable {a b : Int64} {n : Number}

theorem add_widened (sum : (integer a).add (integer b) = .ok n) :
    ∃ d, (decimal (.ofInt64 a)).add (decimal (.ofInt64 b)) = .ok (.decimal d) ∧
    d.same n.toDecimal = true := by
  obtain ⟨i, rfl, value⟩ := toInt_of_ofInt? (eq_some_of_orOverflow sum)
  exact ok_of_decimal (Decimal.add_ofInt64 value)

theorem multiply_widened (product : (integer a).multiply (integer b) = .ok n) :
    ∃ d,
      (decimal (.ofInt64 a)).multiply (decimal (.ofInt64 b)) = .ok (.decimal d) ∧
        d.same n.toDecimal = true := by
  obtain ⟨i, rfl, value⟩ := toInt_of_ofInt? (eq_some_of_orOverflow product)
  exact ok_of_decimal (Decimal.mul_ofInt64 value)

theorem modulo_widened (remainder : (integer a).modulo (integer b) = .ok n) :
    ∃ d,
      (decimal (.ofInt64 a)).modulo (decimal (.ofInt64 b)) = .ok (.decimal d) ∧
        d.same n.toDecimal = true := by
  have nonzero : ¬ (integer b).isZero = true := by
    intro zero
    cases ((modulo_eq_divisionByZero (integer a) _).mpr zero).symm.trans remainder
  rw [modulo_of_ne_zero fun zero => nonzero (isZero_integer.mpr zero)] at remainder
  obtain ⟨_, _, found⟩ :=
    Option.bind_eq_some_iff.mp (eq_some_of_orOverflow remainder)
  obtain ⟨i, rfl, value⟩ := toInt_of_ofInt? found
  unfold modulo
  rw [isZero_widened, if_neg nonzero]
  exact ok_of_decimal (Decimal.mod_ofInt64 (mantissa_ne_zero nonzero) value)

theorem negate_widened (opposite : (integer a).negate = .ok n) :
    ∃ d, (decimal (.ofInt64 a)).negate = .ok (.decimal d) ∧
    d.same n.toDecimal = true := by
  obtain ⟨i, rfl, value⟩ := toInt_of_ofInt? (eq_some_of_orOverflow opposite)
  exact ⟨_, rfl, Decimal.neg_ofInt64 value⟩

end Number

namespace NumericTag

/-- What comes of an operation on two values as the tag reads them, if it
can read both. -/
def onBoth? {α : Type} (tag : NumericTag) (op : Number → Number → α)
    (a b : Value) : Option α := do
  let l ← tag.read? a
  let r ← tag.read? b
  return op l r

variable (a b : Int64)

/-- Both tags put two integers in one order. -/
theorem compare_widened (tag : NumericTag) :
    tag.onBoth? Number.compare (.integer a) (.integer b) =
      some (compare a.toInt b.toInt) := by
  cases tag with
  | integer => rfl
  | decimal => exact congrArg some (Decimal.compare_ofInt64 a b)

/-- The tags of equality that read integers agree on them. -/
theorem equals?_widened {tag : EqualityTag}
    (reads : tag ∈ [EqualityTag.integer, .decimal, .structural]) :
    tag.equals? (.integer a) (.integer b) = some (a == b) := by
  simp only [List.mem_cons, List.not_mem_nil, or_false] at reads
  rcases reads with rfl | rfl | rfl
  · rfl
  · exact congrArg some (Decimal.compare_ofInt64_beq_eq a b)
  · rfl

/-- Division and remainder fault over a zero divisor under both tags or
under neither. -/
theorem divisionByZero_widened
    {op : Number → Number → Except ArithmeticFault Number}
    (faults : ∀ l r, op l r = .error .divisionByZero ↔ r.isZero = true) :
    integer.onBoth? op (.integer a) (.integer b) = some (.error .divisionByZero) ↔
      decimal.onBoth? op (.integer a) (.integer b) =
        some (.error .divisionByZero) := by
  show some (op (.integer a) (.integer b)) = _ ↔
    some (op (.decimal (.ofInt64 a)) (.decimal (.ofInt64 b))) = _
  rw [Option.some_inj, Option.some_inj, faults, faults, Number.isZero_widened]

/-- Widening is a homomorphism. On two integers the decimal tag computes sums,
products, remainders and negations of the value that the integer tag computes,
wherever that one comes to a number at all. Both tags put two integers in one
order, and the tags of equality agree on them. Divisions fault over a zero
divisor under both tags or under neither. -/
theorem widening_homomorphism (scale : Option Nat) :
    (∀ op ∈ [Number.add, Number.multiply, Number.modulo], ∀ n,
      integer.onBoth? op (.integer a) (.integer b) = some (.ok n) →
        ∃ d, decimal.onBoth? op (.integer a) (.integer b) =
          some (.ok (.decimal d)) ∧ d.same n.toDecimal = true) ∧
    (∀ n, (integer.read? (.integer a)).map Number.negate = some (.ok n) →
      ∃ d, (decimal.read? (.integer a)).map Number.negate =
        some (.ok (.decimal d)) ∧ d.same n.toDecimal = true) ∧
    (∀ tag : NumericTag, tag.onBoth? Number.compare (.integer a) (.integer b) =
      some (compare a.toInt b.toInt)) ∧
    (∀ tag ∈ [EqualityTag.integer, .decimal, .structural],
      tag.equals? (.integer a) (.integer b) = some (a == b)) ∧
    (∀ op ∈ [fun l r => Number.divide l r scale, Number.modulo],
      integer.onBoth? op (.integer a) (.integer b) = some (.error .divisionByZero) ↔
        decimal.onBoth? op (.integer a) (.integer b) =
          some (.error .divisionByZero)) := by
  refine ⟨?_, ?_, fun tag => compare_widened a b tag,
    fun tag reads => equals?_widened a b reads, ?_⟩
  · intro op member n computed
    have computed := Option.some.inj computed
    simp only [List.mem_cons, List.not_mem_nil, or_false] at member
    rcases member with rfl | rfl | rfl
    · obtain ⟨d, widened, same⟩ := Number.add_widened computed
      exact ⟨d, congrArg some widened, same⟩
    · obtain ⟨d, widened, same⟩ := Number.multiply_widened computed
      exact ⟨d, congrArg some widened, same⟩
    · obtain ⟨d, widened, same⟩ := Number.modulo_widened computed
      exact ⟨d, congrArg some widened, same⟩
  · intro n computed
    obtain ⟨d, widened, same⟩ := Number.negate_widened (Option.some.inj computed)
    exact ⟨d, congrArg some widened, same⟩
  · intro op member
    simp only [List.mem_cons, List.not_mem_nil, or_false] at member
    rcases member with rfl | rfl
    · exact divisionByZero_widened a b
        (fun l r => Number.divide_eq_divisionByZero l r scale)
    · exact divisionByZero_widened a b Number.modulo_eq_divisionByZero

/-- The remainder of the least integer by ten is minus eight under both tags. -/
theorem widening_homomorphism_leastByTen :
    ∃ d, decimal.onBoth? Number.modulo (.integer Int64.minValue) (.integer 10) =
      some (.ok (.decimal d)) ∧
      d.same (Number.integer (-8)).toDecimal = true :=
  (widening_homomorphism Int64.minValue 10 none).1 Number.modulo (by simp)
    (.integer (-8)) rfl

end NumericTag

end FieldExpr
