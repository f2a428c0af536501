/-!
# Rounding a quotient to a whole number

Both rules agree with the exact quotient to within one half; they differ
at exact halves.
-/

namespace FieldExpr

/-- The whole number nearest to `num / den`, an exact half going to the
even neighbour. -/
def roundHalfEven (num den : Nat) : Nat :=
  let quotient := num / den
  let rest := num % den
  if den < 2 * rest ∨ (2 * rest = den ∧ quotient % 2 = 1) then quotient + 1
    else quotient

/-- The whole number nearest to `num / den`, an exact half going up. -/
def roundHalfUp (num den : Nat) : Nat :=
  (2 * num + den) / (2 * den)

end FieldExpr
