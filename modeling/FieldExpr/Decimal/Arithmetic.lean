import FieldExpr.Decimal.Basic
import FieldExpr.Rounding

/-!
# Decimal arithmetic

Sums, products and remainders are computed exactly and then fitted into 96 bits,
with one rounding half to even. A quotient is developed digit group by digit
group until it is exact or the next digit no longer fits. `none` is overflow; a
zero divisor is the caller's to refuse.
-/

namespace FieldExpr.Decimal

/-- `mantissa · 10 ^ (- scale)` rounded to `target` fraction digits, if that
fits. -/
def fitAt (mantissa scale target : Nat) : Option (Nat × Nat) :=
  let rounded := roundHalfEven mantissa (tenPow (scale - target))
  if rounded < capacity then some (rounded, target) else none

/-- The same at the largest scale, counting down from `target`, at which the
rounded mantissa fits. -/
def fitFrom (mantissa scale : Nat) : (target : Nat) → Option (Nat × Nat)
  | 0 => fitAt mantissa scale 0
  | target + 1 =>
    fitAt mantissa scale (target + 1) <|> fitFrom mantissa scale target

/-- The mantissa and scale, rounded until both fit. -/
def fit (mantissa scale : Nat) : Option (Nat × Nat) :=
  fitFrom mantissa scale (min scale maxScale)

/-- The sum. A zero operand gives the other one back as it is. -/
def add (a b : Decimal) : Option Decimal :=
  if a.mantissa = 0 then some b
  else if b.mantissa = 0 then some a
  else
    let scale := max a.scale b.scale
    let sum := a.unitsAt scale + b.unitsAt scale
    (fit sum.natAbs scale).bind fun (mantissa, scale) =>
      ofParts? (decide (sum < 0)) mantissa scale

/-- Both mantissas fit into 32 bits. -/
def bothShort (a b : Decimal) : Bool :=
  decide (a.mantissa < 0x100000000) && decide (b.mantissa < 0x100000000)

/-- The product. Two short factors whose scales add up to more than 47
vanish altogether; a product that rounds to zero keeps its sign unless both
factors are short. -/
def mul (a b : Decimal) : Option Decimal :=
  if a.mantissa = 0 ∨ b.mantissa = 0 then some zero
  else if bothShort a b ∧ 47 < a.scale + b.scale then some zero
  else
    (fit (a.mantissa * b.mantissa) (a.scale + b.scale)).bind
        fun (mantissa, scale) =>
      let negative :=
        (a.negative ^^ b.negative) && !(mantissa == 0 && bothShort a b)
      ofParts? negative mantissa scale

/-! ## Division -/

/-- The quotient developed so far: `digits · 10 ^ (- scale)` with `rest` still
to be divided. -/
structure Quotient where
  digits : Nat
  rest : Nat
  scale : Int
  /-- Whether a digit ever had to be developed from a remainder. -/
  inexact : Bool

/-- The largest number of further digits, at most nine, that the quotient
has room for. -/
def Quotient.room (q : Quotient) : (limit : Nat) → Nat
  | 0 => 0
  | limit + 1 =>
    if q.scale + (limit + 1) ≤ maxScale ∧
      q.digits * tenPow (limit + 1) < capacity then limit + 1
    else q.room limit

/-- One digit too many has been developed: drop the last one, rounding half to
even on it and the remainder. -/
def Quotient.shorten (q : Quotient) : Option Quotient :=
  if q.scale - 1 < 0 then none
  else
    let last := q.digits % 10
    let kept := q.digits / 10
    let up := 5 < last ∨ (last = 5 ∧ (q.rest ≠ 0 ∨ kept % 2 = 1))
    some { q with digits := if up then kept + 1 else kept, scale := q.scale - 1 }

/-- No room for another digit: round half to even on the remainder. -/
def Quotient.round (divisor : Nat) (q : Quotient) : Option Quotient :=
  let digits :=
    if divisor < 2 * q.rest ∨ (2 * q.rest = divisor ∧ q.digits % 2 = 1) then
      q.digits + 1
    else q.digits
  if digits < capacity then some { q with digits }
  else if q.scale - 1 < 0 then none
  -- Only the largest mantissa carries, and its last digit, a five, rounds
  -- up once more.
  else some { q with digits := (capacity + 4) / 10, scale := q.scale - 1 }

/-- Develop the quotient. Every round but the last adds to the scale, so
`maxScale` less the first scale, and one more, are rounds enough. -/
def develop (divisor : Nat) : (rounds : Nat) → Quotient → Option Quotient
  | 0, _ => none
  | rounds + 1, q =>
    if q.rest = 0 ∧ 0 ≤ q.scale then some q
    else
      let places := if q.rest = 0 then min 9 (-q.scale).toNat else q.room 9
      let inexact := q.inexact || q.rest != 0
      -- Digits of the whole part are missing, and there is no room for them.
      if q.rest ≠ 0 ∧ places < 9 ∧ q.scale + places < 0 then none
      else if places = 0 then ({ q with inexact } : Quotient).round divisor
      else if capacity ≤ q.digits * tenPow places then none
      else
        let next : Quotient :=
          { digits := q.digits * tenPow places + q.rest * tenPow places / divisor
            rest := q.rest * tenPow places % divisor
            scale := q.scale + places
            inexact }
        if next.digits < capacity then develop divisor rounds next else next.shorten

/-- Drop eight zeros of the fraction at a time, as long as the low 32
bits are clear. -/
def dropEights : (digits scale : Nat) → Nat × Nat
  | digits, scale + 8 =>
    if digits % 0x100000000 = 0 ∧ digits % tenPow 8 = 0 then
      dropEights (digits / tenPow 8) scale
    else (digits, scale + 8)
  | digits, scale => (digits, scale)

/-- Drop `places` zeros of the fraction at once, where the digits are divisible
by `2 ^ places` and by `10 ^ places`. -/
def dropOnce (places : Nat) (parts : Nat × Nat) : Nat × Nat :=
  if parts.1 % twoPow places = 0 ∧ places ≤ parts.2 ∧
      parts.1 % tenPow places = 0 then
    (parts.1 / tenPow places, parts.2 - places)
  else parts

/-- The zeros that an inexact quotient sheds: groups of eight, then once four,
two and one. Not all of them go: one half is `0.50`. -/
def dropGroups (digits scale : Nat) : Nat × Nat :=
  dropOnce 1 (dropOnce 2 (dropOnce 4 (dropEights digits scale)))

/-- The quotient, for a divisor that is not zero. -/
def div (a b : Decimal) : Option Decimal :=
  if a.mantissa = 0 then some zero
  else do
    let scale : Int := a.scale - b.scale
    let start : Quotient :=
      { digits := a.mantissa / b.mantissa, rest := a.mantissa % b.mantissa,
        scale, inexact := false }
    let q ← develop b.mantissa ((maxScale - scale).toNat + 1) start
    let (mantissa, scale) := if q.inexact then dropGroups q.digits q.scale.toNat
      else (q.digits, q.scale.toNat)
    ofParts? ((a.negative ^^ b.negative) && mantissa != 0) mantissa scale

/-- The remainder, for a divisor that is not zero: it has the sign of the
dividend, and a dividend that is smaller than the divisor comes back as it is. -/
def mod (a b : Decimal) : Option Decimal :=
  if a.mantissa = 0 then some zero
  else
    let scale := max a.scale b.scale
    let dividend := (a.unitsAt scale).natAbs
    let divisor := (b.unitsAt scale).natAbs
    if dividend = divisor then some zero
    else if dividend < divisor then some a
    else
      -- One of the two had this scale already, and the rest is less than
      -- its mantissa.
      let rest := dividend % divisor
      ofParts? (a.negative && rest != 0) rest scale

/-! ## Rounding to a number of places -/

theorem roundHalfEven_le {num den : Nat} (h : 2 ≤ den) :
    roundHalfEven num den ≤ num := by
  have split := Nat.div_add_mod num den
  have twice : 2 * (num / den) ≤ den * (num / den) := Nat.mul_le_mul_right _ h
  unfold roundHalfEven
  dsimp only
  by_cases q0 : num / den = 0
  · have small : num % den = num := by simpa [q0] using split
    split <;> omega
  · split <;> omega

/-- At most `places` fraction digits: fewer are left alone, more are rounded
half to even. -/
def roundTo (d : Decimal) (places : Nat) : Decimal :=
  if h : d.scale ≤ places then d
  else
    { negative := d.negative &&
        roundHalfEven d.mantissa (tenPow (d.scale - places)) != 0
      mantissa := roundHalfEven d.mantissa (tenPow (d.scale - places))
      scale := places
      mantissa_lt := by
        refine Nat.lt_of_le_of_lt (roundHalfEven_le ?_) d.mantissa_lt
        have : 10 ≤ tenPow (d.scale - places) := ten_le_tenPow (by omega)
        omega
      scale_le := by have := d.scale_le; omega }

end FieldExpr.Decimal
