import FieldExpr.Capability.Numeric

/-!
# Integer arithmetic is exact

Sums, products, quotients and negations of machine integers are those of the
integers as long as a machine integer has that value, and overflow otherwise
(`ComesTo`). A remainder never leaves the range, but it is computed beside the
quotient and faults where that one does: at the least integer by minus one,
and nowhere else.
-/

namespace FieldExpr.Number

/-- The integers that a machine integer has room for. -/
def Representable (x : Int) : Prop :=
  -0x8000000000000000 ≤ x ∧ x < 0x8000000000000000

/-- Arithmetic whose exact result is `x`: the machine integer with that value,
or overflow if there is none. -/
structure ComesTo (x : Int) (result : Except ArithmeticFault Number) : Prop where
  exact : Representable x → ∃ n : Int64, n.toInt = x ∧ result = .ok (.integer n)
  overflow : result = .error .overflow ↔ ¬ Representable x
  noDivisionByZero : result ≠ .error .divisionByZero

theorem representable_toInt (n : Int64) : Representable n.toInt :=
  ⟨Int64.le_toInt n, Int64.toInt_lt n⟩

theorem toInt_ofInt {x : Int} (representable : Representable x) :
    (Int64.ofInt x).toInt = x :=
  Int64.toInt_ofInt_of_le representable.1 representable.2

theorem ofInt?_of_representable {x : Int} (representable : Representable x) :
    ofInt? x = some (.integer (Int64.ofInt x)) :=
  if_pos representable

theorem ofInt?_of_not_representable {x : Int} (large : ¬ Representable x) :
    ofInt? x = none :=
  if_neg large

/-- What is found for an integer has its value. -/
theorem toInt_of_ofInt? {x : Int} {n : Number} (found : ofInt? x = some n) :
    ∃ i : Int64, n = .integer i ∧ i.toInt = x := by
  by_cases representable : Representable x
  · rw [ofInt?_of_representable representable] at found
    cases found
    exact ⟨_, rfl, toInt_ofInt representable⟩
  · rw [ofInt?_of_not_representable representable] at found
    cases found

theorem orOverflow_ne_divisionByZero (x : Option Number) :
    orOverflow x ≠ .error .divisionByZero := by
  cases x with
  | none => nofun
  | some n => nofun

theorem comesTo_ofInt? (x : Int) : ComesTo x (orOverflow (ofInt? x)) := by
  by_cases representable : Representable x
  · rw [ofInt?_of_representable representable]
    refine ⟨fun _ => ⟨_, toInt_ofInt representable, rfl⟩, ?_,
      orOverflow_ne_divisionByZero _⟩
    exact ⟨nofun, fun large => absurd representable large⟩
  · rw [ofInt?_of_not_representable representable]
    refine ⟨fun fits => absurd fits representable, ?_,
      orOverflow_ne_divisionByZero _⟩
    exact ⟨fun _ => representable, fun _ => rfl⟩

/-! ## Zero divisors -/

/-- A result behind a check of the divisor, which has no such fault of its own. -/
theorem checked_eq_divisionByZero {zero : Bool}
    {result : Except ArithmeticFault Number}
    (other : result ≠ .error .divisionByZero) :
    (if zero then .error .divisionByZero else result) = .error .divisionByZero ↔
    zero = true := by
  cases zero with
  | true => exact ⟨fun _ => rfl, fun _ => rfl⟩
  | false => exact ⟨fun failed => absurd failed other, nofun⟩

/-- A division of numbers of any kind faults over a zero divisor, and over
nothing else in this way. -/
theorem divide_eq_divisionByZero (l r : Number) (scale : Option Nat) :
    l.divide r scale = .error .divisionByZero ↔ r.isZero = true := by
  unfold divide
  refine checked_eq_divisionByZero ?_
  split <;> exact orOverflow_ne_divisionByZero _

theorem modulo_eq_divisionByZero (l r : Number) :
    l.modulo r = .error .divisionByZero ↔ r.isZero = true := by
  unfold modulo
  refine checked_eq_divisionByZero ?_
  split <;> exact orOverflow_ne_divisionByZero _

/-! ## Quotients and remainders -/

variable {l r : Int64}

theorem isZero_integer : (integer r).isZero = true ↔ r = 0 :=
  beq_iff_eq

theorem toInt_ne_zero (nonzero : r ≠ 0) : r.toInt ≠ 0 :=
  fun zero => nonzero (Int64.toInt_inj.mp zero)

/-- The one quotient that is too large is that of the least integer by minus one. -/
theorem representable_tdiv (nonzero : r ≠ 0) :
    Representable (l.toInt.tdiv r.toInt) ↔ ¬ (l = Int64.minValue ∧ r = -1) := by
  have least : l = Int64.minValue ↔ l.toInt = -0x8000000000000000 :=
    Int64.toInt_inj.symm
  have minusOne : r = -1 ↔ r.toInt = -1 := Int64.toInt_inj.symm
  have range := representable_toInt l
  have divisor := toInt_ne_zero nonzero
  have magnitude := Int.natAbs_tdiv l.toInt r.toInt
  rw [least, minusOne]
  unfold Representable at range ⊢
  generalize l.toInt = x at *
  generalize r.toInt = y at *
  by_cases unit : y.natAbs = 1
  · rcases Int.natAbs_eq y with positive | negative
    · have one : y = 1 := by omega
      rw [one, Int.tdiv_one]
      omega
    · have minusOne : y = -1 := by omega
      rw [minusOne, Int.tdiv_neg, Int.tdiv_one]
      omega
  · -- A divisor beyond one in magnitude at least halves the dividend.
    have halved : x.natAbs / y.natAbs ≤ x.natAbs / 2 :=
      Nat.div_le_div_left (by omega) (by decide)
    rw [← show (x.tdiv y).natAbs = x.natAbs / y.natAbs from magnitude] at halved
    omega

theorem representable_tmod (nonzero : r ≠ 0) :
    Representable (l.toInt.tmod r.toInt) := by
  have range := representable_toInt r
  have divisor := toInt_ne_zero nonzero
  have magnitude := Int.natAbs_tmod l.toInt r.toInt
  have less := Nat.mod_lt l.toInt.natAbs (Int.natAbs_pos.mpr divisor)
  unfold Representable at range ⊢
  omega

theorem divide_of_ne_zero (nonzero : r ≠ 0) (scale : Option Nat) :
    (integer l).divide (integer r) scale =
      orOverflow (ofInt? (l.toInt.tdiv r.toInt)) :=
  if_neg (fun zero => nonzero (isZero_integer.mp zero))

theorem modulo_of_ne_zero (nonzero : r ≠ 0) :
    (integer l).modulo (integer r) =
      orOverflow ((ofInt? (l.toInt.tdiv r.toInt)).bind fun _ =>
        ofInt? (l.toInt.tmod r.toInt)) :=
  if_neg (fun zero => nonzero (isZero_integer.mp zero))

/-- Where there is no quotient, the remainder overflows with it. -/
theorem modulo_of_overflow (least : l = Int64.minValue ∧ r = -1) :
    (integer l).modulo (integer r) = .error .overflow := by
  have nonzero : r ≠ 0 := by
    rw [least.2]
    decide
  have large : ¬ Representable (l.toInt.tdiv r.toInt) :=
    fun fits => (representable_tdiv nonzero).mp fits least
  rw [modulo_of_ne_zero nonzero, ofInt?_of_not_representable large]
  rfl

/-- Where there is a quotient, the remainder is exact. -/
theorem modulo_of_quotient (nonzero : r ≠ 0)
    (other : ¬ (l = Int64.minValue ∧ r = -1)) :
    ∃ m : Int64, m.toInt = l.toInt.tmod r.toInt ∧
    (integer l).modulo (integer r) = .ok (.integer m) := by
  rw [modulo_of_ne_zero nonzero,
    ofInt?_of_representable ((representable_tdiv nonzero).mpr other)]
  exact (comesTo_ofInt? _).exact (representable_tmod nonzero)

theorem modulo_eq_overflow : (integer l).modulo (integer r) = .error .overflow ↔
    l = Int64.minValue ∧ r = -1 := by
  refine ⟨fun failed => ?_, modulo_of_overflow⟩
  by_cases least : l = Int64.minValue ∧ r = -1
  · exact least
  · by_cases zero : r = 0
    · cases ((modulo_eq_divisionByZero (integer l) _).mpr
        (isZero_integer.mpr zero)).symm.trans failed
    · obtain ⟨_, _, reduced⟩ := modulo_of_quotient zero least
      cases reduced.symm.trans failed

theorem tmod_nonpos {x : Int} (y : Int) (nonpos : x ≤ 0) : x.tmod y ≤ 0 := by
  have mirrored := Int.tmod_nonneg y (Int.neg_nonneg_of_nonpos nonpos)
  rw [Int.neg_tmod] at mirrored
  omega

/-! ## Arithmetic -/

/-- Arithmetic on two machine integers, or on one, is exact or faults precisely.
Only divisions fault over a zero divisor, and they always do. Sums, products,
negations and quotients truncated toward zero are exact where a machine integer
has that value, and overflow where none has. The remainder has the sign of the
dividend and makes up for what the quotient leaves; it overflows with the
quotient of the least integer by minus one. -/
theorem integer_arithmetic (l r : Int64) (scale : Option Nat) :
    ComesTo (l.toInt + r.toInt) ((integer l).add (integer r)) ∧
      ComesTo (l.toInt * r.toInt) ((integer l).multiply (integer r)) ∧
      ComesTo (-l.toInt) (integer l).negate ∧
      ((integer l).divide (integer r) scale = .error .divisionByZero ↔ r = 0) ∧
      (r ≠ 0 → ComesTo (l.toInt.tdiv r.toInt)
        ((integer l).divide (integer r) scale)) ∧
      ((integer l).modulo (integer r) = .error .divisionByZero ↔ r = 0) ∧
      ((integer l).modulo (integer r) = .error .overflow ↔
        l = Int64.minValue ∧ r = -1) ∧
      (r ≠ 0 → ¬ (l = Int64.minValue ∧ r = -1) → ∃ q m : Int64,
        (integer l).divide (integer r) scale = .ok (.integer q) ∧
          (integer l).modulo (integer r) = .ok (.integer m) ∧
          m.toInt = l.toInt.tmod r.toInt ∧
          l.toInt = q.toInt * r.toInt + m.toInt ∧ m.toInt.natAbs < r.toInt.natAbs ∧
          (0 ≤ l.toInt → 0 ≤ m.toInt) ∧ (l.toInt ≤ 0 → m.toInt ≤ 0)) := by
  refine ⟨comesTo_ofInt? _, comesTo_ofInt? _, comesTo_ofInt? _,
    (divide_eq_divisionByZero _ _ scale).trans isZero_integer, ?_,
    (modulo_eq_divisionByZero _ _).trans isZero_integer, modulo_eq_overflow, ?_⟩
  · intro nonzero
    rw [divide_of_ne_zero nonzero]
    exact comesTo_ofInt? _
  · intro nonzero other
    obtain ⟨q, quotient, divided⟩ :=
      (comesTo_ofInt? _).exact ((representable_tdiv nonzero).mpr other)
    obtain ⟨m, remainder, reduced⟩ := modulo_of_quotient nonzero other
    refine ⟨q, m, (divide_of_ne_zero nonzero scale).trans divided, reduced,
      remainder, ?_, ?_, ?_, ?_⟩
    · rw [quotient, remainder]
      exact (Int.tdiv_mul_add_tmod l.toInt r.toInt).symm
    · rw [remainder, Int.natAbs_tmod]
      exact Nat.mod_lt _ (Int.natAbs_pos.mpr (toInt_ne_zero nonzero))
    · rw [remainder]
      exact Int.tmod_nonneg _
    · rw [remainder]
      exact tmod_nonpos r.toInt

/-- The least integer by three: the quotient is cut off toward zero, and the
remainder is negative. -/
theorem integer_arithmetic_leastByThree :
    ∃ q m : Int64, (integer Int64.minValue).divide (integer 3) none =
      .ok (.integer q) ∧
      (integer Int64.minValue).modulo (integer 3) = .ok (.integer m) ∧
      Int64.minValue.toInt = q.toInt * (3 : Int64).toInt + m.toInt ∧
      m.toInt ≤ 0 ∧ m = -2 := by
  obtain ⟨_, _, _, _, _, _, _, law⟩ := integer_arithmetic Int64.minValue 3 none
  obtain ⟨q, m, divided, reduced, remainder, sum, _, _, sign⟩ :=
    law (by decide) (by decide)
  exact ⟨q, m, divided, reduced, sum, sign (by decide),
    Int64.toInt_inj.mp (remainder.trans (by decide))⟩

/-- The exact remainder of the least integer by minus one is zero, which a
machine integer has room for; but it overflows. -/
theorem not_comesTo_modulo_least :
    (integer Int64.minValue).modulo (integer (-1)) = .error .overflow ∧
      Int64.minValue.toInt.tmod (-1 : Int64).toInt = 0 ∧
      ¬ ComesTo (Int64.minValue.toInt.tmod (-1 : Int64).toInt)
        ((integer Int64.minValue).modulo (integer (-1))) := by
  have overflow : (integer Int64.minValue).modulo (integer (-1)) =
    .error .overflow := modulo_of_overflow ⟨rfl, rfl⟩
  have zero : Int64.minValue.toInt.tmod (-1 : Int64).toInt = 0 := by decide
  refine ⟨overflow, zero, fun comes => ?_⟩
  rw [zero] at comes
  exact absurd ⟨by decide, by decide⟩ (comes.overflow.mp overflow)

end FieldExpr.Number
