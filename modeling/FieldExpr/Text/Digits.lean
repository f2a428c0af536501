/-!
# Words for numbers and truth values

Whole numbers as text, and the reading of an unsigned number below a bound.
-/

namespace FieldExpr.Text

/-- The digits of a natural number, without leading zeros. -/
def natural (n : Nat) : List Char :=
  Nat.toDigits 10 n

/-- An integer: its digits, after a minus sign when it is negative. -/
def integer (n : Int) : List Char :=
  if n < 0 then '-' :: natural n.natAbs else natural n.natAbs

/-- The word for a truth value. -/
def truth (b : Bool) : List Char :=
  if b then "true".toList else "false".toList

/-- The value of an ASCII digit. -/
def digit? (c : Char) : Option Nat :=
  if '0' ≤ c ∧ c ≤ '9' then some (c.toNat - '0'.toNat) else none

/-- The number that a word of digits continues from `value`; `none` at the first
other character. -/
def continueNatural (value : Nat) : List Char → Option Nat
  | [] => some value
  | c :: rest => (digit? c).bind fun d => continueNatural (10 * value + d) rest

/-- An unsigned number below `bound`: one optional plus sign, then at least one
digit and nothing else. Leading zeros do not matter. -/
def unsigned? (bound : Nat) (text : List Char) : Option Nat :=
  let digits := match text with
    | '+' :: rest => rest
    | other => other
  match digits with
  | [] => none
  | _ => (continueNatural 0 digits).filter (· < bound)

end FieldExpr.Text
