import FieldExpr.Binary64.Shortest

/-!
# Doubles as text

The shortest digits that read back: in plain notation while the first digit
stands between the sixteenth place before the point and the fifth place behind
it, always with a fraction; otherwise in scientific notation with a signed
exponent and no padding.
-/

namespace FieldExpr.Binary64

/-- The first and last decimal exponent of the first digit that are written in
plain notation. -/
abbrev plainExponents : Int × Int := (-5, 15)

/-- Plain notation; a whole number gets the fraction `.0`. -/
def plainText (digits : List Char) (exponent : Int) : List Char :=
  if exponent < 0 then
    '0' :: '.' :: List.replicate (-exponent - 1).toNat '0' ++ digits
  else
    let places := exponent.toNat + 1
    let fraction := digits.drop places
    digits.take places ++ List.replicate (places - digits.length) '0' ++
      '.' :: (if fraction.isEmpty then ['0'] else fraction)

/-- Scientific notation: one digit before the point, and the exponent
with its sign. -/
def scientificText (digits : List Char) (exponent : Int) : List Char :=
  let fraction := digits.drop 1
  digits.take 1 ++ (if fraction.isEmpty then [] else '.' :: fraction) ++
    'e' :: (if exponent < 0 then '-' else '+') :: Nat.toDigits 10 exponent.natAbs

/-- The text of a double. -/
def text (x : Binary64) : List Char :=
  let magnitude :=
    if x.isZero then ['0', '.', '0']
    else
      let shortest := x.shortest
      let digits := Nat.toDigits 10 shortest.digits
      if plainExponents.1 ≤ shortest.exponent ∧
          shortest.exponent ≤ plainExponents.2 then
        plainText digits shortest.exponent
      else scientificText digits shortest.exponent
  if x.negative then '-' :: magnitude else magnitude

/-- The text with exactly one fraction digit: the exact value, a half going to
the even digit. -/
def textOnePlace (x : Binary64) : List Char :=
  let (num, den) := x.magnitude
  let tenths := roundHalfEven (10 * num) den
  (if x.negative then ['-'] else []) ++
    Nat.toDigits 10 (tenths / 10) ++ '.' :: Nat.toDigits 10 (tenths % 10)

end FieldExpr.Binary64
