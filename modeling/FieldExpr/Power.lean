/-!
# Powers of two and ten

The scales of decimals are powers of ten, those of doubles powers of two.
-/

namespace FieldExpr

/-- Two to a power. -/
def twoPow (exponent : Nat) : Nat :=
  Nat.pow 2 exponent

/-- Ten to a power. -/
def tenPow (exponent : Nat) : Nat :=
  Nat.pow 10 exponent

theorem tenPow_succ (exponent : Nat) :
    tenPow (exponent + 1) = tenPow exponent * 10 := rfl

theorem tenPow_add (a b : Nat) : tenPow (a + b) = tenPow a * tenPow b :=
  Nat.pow_add 10 a b

theorem tenPow_pos (exponent : Nat) : 0 < tenPow exponent :=
  Nat.pow_pos (by decide)

theorem ten_le_tenPow {exponent : Nat} (h : 0 < exponent) :
    10 ≤ tenPow exponent := by
  cases exponent with
  | zero => omega
  | succ exponent =>
    have := tenPow_pos exponent
    rw [tenPow_succ]
    omega

end FieldExpr
