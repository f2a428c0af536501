import FieldExpr.Decimal.Arithmetic
import FieldExpr.Text.Digits

/-!
# Decimals as text

Writing shows every fraction digit that the scale counts. Reading takes plain
digits with an optional sign, one point and underscores, rounds what does not
fit at the first digit that is too many, and otherwise tries scientific
notation. Underscores mean nothing, save where they stand right behind the last
fraction digit that is kept of a narrow mantissa: there the first one stands for
the digit that decides, and is a zero.
-/

namespace FieldExpr.Decimal

open Text (natural digit? unsigned?)

/-- The digits of `n`, filled up with zeros in front to `width`. -/
def padded (width n : Nat) : List Char :=
  List.replicate (width - (natural n).length) '0' ++ natural n

/-- The digits around the point, with exactly `scale` of them behind it. -/
def text (d : Decimal) : List Char :=
  let unit := tenPow d.scale
  (if d.negative then ['-'] else []) ++ natural (d.mantissa / unit) ++
    (if d.scale = 0 then [] else '.' :: padded d.scale (d.mantissa % unit))

/-! ## Reading -/

/-- What may follow the last digit that was taken: digits and underscores, which
no longer count. -/
def onlyTail (text : List Char) : Bool :=
  text.all fun c => (digit? c).isSome || c == '_'

/-- The digit that no longer fits decides the rounding of the digits before it. -/
def roundLast (digit mantissa scale : Nat) : Option (Nat × Nat) :=
  if digit < 5 then some (mantissa, scale)
  else if mantissa + 1 < capacity then some (mantissa + 1, scale)
  else match scale with
    | 0 => none
    | scale + 1 => some ((capacity + 4) / 10, scale)

/-- The least mantissa that is not narrow, 255 below the tenth part of the
largest number of 64 bits. -/
def narrowBound : Nat := 0xffffffffffffffff / 10 - 0xff

/-- Plain digits from the state reached so far: the digits taken, how many of
them stand after the point, whether the point has been passed, and whether there
was any digit. Behind the last place of a mantissa that was narrow before its
last digit, an underscore is the digit that decides. -/
def scanPlain (mantissa scale : Nat) (fraction seen : Bool) :
    List Char → Option (Nat × Nat)
  | [] => if seen then some (mantissa, scale) else none
  | c :: rest =>
    match digit? c with
    | some digit =>
      let next := 10 * mantissa + digit
      if next < capacity ∧ scale < maxScale then
        scanPlain next (if fraction then scale + 1 else scale) fraction true rest
      else if fraction && onlyTail rest then roundLast digit mantissa scale
      else none
    | none =>
      if c = '.' ∧ !fraction then scanPlain mantissa scale true seen rest
      else if c = '_' ∧ seen then
        if scale = maxScale ∧ mantissa / 10 < narrowBound then
          if onlyTail rest then some (mantissa, scale) else none
        else scanPlain mantissa scale fraction seen rest
      else none

/-- Plain notation. A zero is read without its sign. -/
def readPlain? (text : List Char) : Option Decimal :=
  let (negative, digits) := match text with
    | '-' :: rest => (true, rest)
    | '+' :: rest => (false, rest)
    | other => (false, other)
  (scanPlain 0 0 false false digits).bind fun (mantissa, scale) =>
    ofParts? (negative && mantissa != 0) mantissa scale

/-- The power of ten with this exponent, as far as it fits. -/
def powerOfTen? (exponent : Nat) : Option Decimal :=
  ofParts? false (tenPow exponent) 0

/-- The point of `d` moved `places` to the left. Digits that fall off the end
are rounded, a half away from zero, before the point moves. -/
def shiftLeft (d : Decimal) (places : Nat) : Option Decimal :=
  if maxScale < places then none
  else if d.scale + places ≤ maxScale then
    ofParts? d.negative d.mantissa (d.scale + places)
  else
    let dropped := d.scale - (maxScale - places)
    ofParts? d.negative (roundHalfUp d.mantissa (tenPow dropped)) maxScale

/-- The point of `d` moved `places` to the right. Where it passes the last
digit, the decimal is multiplied by powers of ten of at most nineteen places
and normalised. -/
def shiftRight (d : Decimal) (places : Nat) : Option Decimal :=
  if places ≤ d.scale then ofParts? d.negative d.mantissa (d.scale - places)
  else if maxScale < places then none
  else do
    let first ← d.mul (← powerOfTen? (min 19 places))
    let product ← first.mul (← powerOfTen? (places - 19))
    return product.normalize

/-- Scientific notation: a plain base, `e` or `E`, and an exponent with an
optional sign. -/
def readScientific? (text : List Char) : Option Decimal := do
  let isMark := fun c => c == 'e' || c == 'E'
  let base ← readPlain? (text.takeWhile fun c => !isMark c)
  match text.dropWhile fun c => !isMark c with
  | [] => none
  | _ :: '-' :: exponent => base.shiftLeft (← unsigned? 0x100000000 exponent)
  | _ :: exponent => base.shiftRight (← unsigned? 0x100000000 exponent)

/-- The decimal that a text stands for, in plain or else in scientific notation. -/
def ofText? (text : List Char) : Option Decimal :=
  readPlain? text <|> readScientific? text

end FieldExpr.Decimal
