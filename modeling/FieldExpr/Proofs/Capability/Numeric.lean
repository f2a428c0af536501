import FieldExpr.Capability.Numeric
import FieldExpr.Proofs.Decimal.Division

/-!
# Numbers by value

Arithmetic sees the values of numbers and not the digits of decimals: on operands
of the same values it comes to results of the same value or to the same fault.
-/

namespace FieldExpr.Number

/-- The numbers are one integer, or decimals of one value. -/
inductive Same : Number → Number → Prop
  | integer (n : Int64) : Same (.integer n) (.integer n)
  | decimal {d d' : Decimal} : d.units = d'.units → Same (.decimal d) (.decimal d')

/-- Results are numbers of one value, or one fault. -/
inductive SameResult :
    Except ArithmeticFault Number → Except ArithmeticFault Number → Prop
  | ok {n n'} : Same n n' → SameResult (.ok n) (.ok n')
  | error (fault : ArithmeticFault) : SameResult (.error fault) (.error fault)

variable {l l' r r' n n' : Number}

theorem Same.toDecimal (same : Same n n') :
    n.toDecimal.units = n'.toDecimal.units := by
  cases same with
  | integer n => rfl
  | decimal units => exact units

/-- Whatever comes out of integers is an integer. -/
theorem integer_of_ofInt? {x : Int} (n : Number) (found : ofInt? x = some n) :
    ∃ i, n = .integer i := by
  unfold ofInt? at found
  split at found
  · cases found
    exact ⟨_, rfl⟩
  · cases found

theorem sameResult_integers (x : Option Number)
    (integer : ∀ n, x = some n → ∃ i, n = .integer i) :
    SameResult (orOverflow x) (orOverflow x) := by
  cases x with
  | none => exact .error .overflow
  | some n =>
    obtain ⟨i, rfl⟩ := integer n rfl
    exact .ok (.integer i)

theorem sameResult_decimals {x y : Option Decimal}
    (units : x.map Decimal.units = y.map Decimal.units) :
    SameResult (orOverflow (x.map .decimal)) (orOverflow (y.map .decimal)) := by
  cases x with
  | none =>
    cases y with
    | none => exact .error .overflow
    | some e => cases units
  | some d =>
    cases y with
    | none => cases units
    | some e => exact .ok (.decimal (Option.some.inj units))

/-! ## Binary operations -/

/-- An operation that computes two integers as integers and everything
else as decimals. -/
def byKind (integers : Int64 → Int64 → Option Number)
    (decimals : Decimal → Decimal → Option Decimal) (l r : Number) :
    Except ArithmeticFault Number :=
  match l, r with
  | .integer n, .integer m => orOverflow (integers n m)
  | l, r => orOverflow ((decimals l.toDecimal r.toDecimal).map .decimal)

theorem sameResult_byKind {integers : Int64 → Int64 → Option Number}
    {decimals : Decimal → Decimal → Option Decimal} (left : Same l l')
    (right : Same r r')
    (integer : ∀ n m k, integers n m = some k → ∃ i, k = .integer i)
    (units : (decimals l.toDecimal r.toDecimal).map Decimal.units =
      (decimals l'.toDecimal r'.toDecimal).map Decimal.units) :
    SameResult (byKind integers decimals l r) (byKind integers decimals l' r') := by
  have as_decimals := sameResult_decimals units
  cases left with
  | integer n =>
    cases right with
    | integer m => exact sameResult_integers _ (integer n m)
    | decimal _ => exact as_decimals
  | decimal _ => cases right <;> exact as_decimals

theorem add_eq_byKind (l r : Number) :
    l.add r = byKind (fun n m => ofInt? (n.toInt + m.toInt)) Decimal.add l r := by
  cases l <;> cases r <;> rfl

theorem add_sameResult (left : Same l l') (right : Same r r') :
    SameResult (l.add r) (l'.add r') := by
  rw [add_eq_byKind, add_eq_byKind]
  refine sameResult_byKind left right (fun _ _ => integer_of_ofInt?) ?_
  rw [Decimal.units_add, Decimal.units_add, left.toDecimal, right.toDecimal]

theorem multiply_eq_byKind (l r : Number) :
    l.multiply r =
      byKind (fun n m => ofInt? (n.toInt * m.toInt)) Decimal.mul l r := by
  cases l <;> cases r <;> rfl

theorem multiply_sameResult (left : Same l l') (right : Same r r') :
    SameResult (l.multiply r) (l'.multiply r') := by
  rw [multiply_eq_byKind, multiply_eq_byKind]
  refine sameResult_byKind left right (fun _ _ => integer_of_ofInt?) ?_
  rw [Decimal.units_mul, Decimal.units_mul, left.toDecimal, right.toDecimal]

/-! ## Divisions -/

/-- A number is zero exactly when it is worth nothing as a decimal. -/
theorem isZero_iff (n : Number) : n.isZero = true ↔ n.toDecimal.mantissa = 0 := by
  cases n with
  | integer n =>
    show (n == 0) = true ↔ n.toInt.natAbs = 0
    rw [beq_iff_eq, Int.natAbs_eq_zero, ← Int64.toInt_inj]
    rfl
  | decimal d => exact beq_iff_eq

theorem Same.isZero (same : Same n n') : n.isZero = n'.isZero := by
  refine Bool.eq_iff_iff.mpr ?_
  rw [isZero_iff, isZero_iff, ← Decimal.units_eq_zero, ← Decimal.units_eq_zero,
    same.toDecimal]

theorem mantissa_ne_zero (nonzero : ¬ n.isZero = true) : n.toDecimal.mantissa ≠ 0 :=
  fun zero => nonzero ((isZero_iff n).mpr zero)

/-- The quotient of decimals as a division keeps it: with all its digits, or
rounded to places. -/
def quotient (scale : Option Nat) (a b : Decimal) : Option Decimal :=
  (a.div b).map fun q => match scale with
    | some places => q.roundTo places
    | none => q

theorem divide_eq_byKind (l r : Number) (scale : Option Nat) :
    l.divide r scale = if r.isZero then .error .divisionByZero
      else
        byKind (fun n m => ofInt? (n.toInt.tdiv m.toInt)) (quotient scale) l r := by
  unfold divide
  split
  · rfl
  · cases scale <;> cases l <;> cases r
      <;> simp only [byKind, quotient, Option.map_map, Function.comp_def]

/-- A quotient has one value, rounded or not, for all dividends of one value and
all divisors of one value. -/
theorem quotient_units (scale : Option Nat) {a a' b b' : Decimal}
    (dividends : a.units = a'.units) (divisors : b.units = b'.units)
    (ne : b.mantissa ≠ 0) :
    (quotient scale a b).map Decimal.units =
      (quotient scale a' b').map Decimal.units := by
  have ne' : b'.mantissa ≠ 0 := by
    rw [Ne, ← Decimal.units_eq_zero] at ne ⊢
    rwa [← divisors]
  have same : (a.div b).map Decimal.units = (a'.div b').map Decimal.units := by
    rw [Decimal.units_div _ ne, Decimal.units_div _ ne', dividends, divisors]
  unfold quotient
  generalize a.div b = x at same
  generalize a'.div b' = y at same
  cases x with
  | none =>
    cases y with
    | none => rfl
    | some e => cases same
  | some d =>
    cases y with
    | none => cases same
    | some e =>
      have units : d.units = e.units := Option.some.inj same
      cases scale with
      | none => exact same
      | some places =>
        refine congrArg some ?_
        show (d.roundTo places).units = (e.roundTo places).units
        rw [Decimal.units_roundTo, Decimal.units_roundTo, units]

theorem divide_sameResult (scale : Option Nat) (left : Same l l')
    (right : Same r r') :
    SameResult (l.divide r scale) (l'.divide r' scale) := by
  rw [divide_eq_byKind, divide_eq_byKind, ← right.isZero]
  split
  · exact .error .divisionByZero
  · rename_i nonzero
    refine sameResult_byKind left right (fun _ _ => integer_of_ofInt?) ?_
    exact quotient_units scale left.toDecimal right.toDecimal
      (mantissa_ne_zero nonzero)

theorem modulo_eq_byKind (l r : Number) :
    l.modulo r = if r.isZero then .error .divisionByZero
      else byKind (fun n m => (ofInt? (n.toInt.tdiv m.toInt)).bind fun _ =>
        ofInt? (n.toInt.tmod m.toInt)) Decimal.mod l r := by
  unfold modulo
  cases l <;> cases r <;> rfl

theorem modulo_sameResult (left : Same l l') (right : Same r r') :
    SameResult (l.modulo r) (l'.modulo r') := by
  rw [modulo_eq_byKind, modulo_eq_byKind, ← right.isZero]
  split
  · exact .error .divisionByZero
  · rename_i nonzero
    have ne := mantissa_ne_zero nonzero
    rw [right.isZero] at nonzero
    refine sameResult_byKind left right ?_ ?_
    · intro n m k found
      obtain ⟨_, _, rest⟩ := Option.bind_eq_some_iff.mp found
      exact integer_of_ofInt? k rest
    · rw [Decimal.units_mod _ ne,
        Decimal.units_mod _ (mantissa_ne_zero nonzero), left.toDecimal,
        right.toDecimal]

/-! ## Negation and comparison -/

theorem negate_sameResult (same : Same n n') : SameResult n.negate n'.negate := by
  cases same with
  | integer n => exact sameResult_integers _ integer_of_ofInt?
  | decimal units =>
    refine .ok (.decimal ?_)
    rw [Decimal.units_neg, Decimal.units_neg, units]

theorem compare_eq_of_same (left : Same l l') (right : Same r r') :
    l.compare r = l'.compare r' := by
  have decimals : l.toDecimal.compare r.toDecimal =
      l'.toDecimal.compare r'.toDecimal := by
    rw [Decimal.compare_eq, Decimal.compare_eq, left.toDecimal, right.toDecimal]
  cases left with
  | integer n =>
    cases right with
    | integer m => rfl
    | decimal _ => exact decimals
  | decimal _ => cases right <;> exact decimals

end FieldExpr.Number
