/-!
# Hexadecimal digits

Bytes as pairs of lower-case hexadecimal digits, and the reading of such
pairs in either case.
-/

namespace FieldExpr.Text

/-- The value of one hexadecimal digit, given as a byte of ASCII text. -/
def hexDigit? (b : UInt8) : Option Nat :=
  if 0x30 ≤ b ∧ b ≤ 0x39 then some (b.toNat - 0x30)
  else if 0x61 ≤ b ∧ b ≤ 0x66 then some (b.toNat - 0x57)
  else if 0x41 ≤ b ∧ b ≤ 0x46 then some (b.toNat - 0x37)
  else none

/-- The two lower-case digits of a byte. -/
def hexByte (b : UInt8) : List Char :=
  [Nat.digitChar (b.toNat / 16), Nat.digitChar (b.toNat % 16)]

/-- The digits of a list of bytes, two for each. -/
def hex (bytes : List UInt8) : List Char :=
  bytes.flatMap hexByte

/-- The bytes that a text of digit pairs stands for; `none` when a digit is
wrong or one is left over. -/
def unhex? : List UInt8 → Option (List UInt8)
  | [] => some []
  | [_] => none
  | high :: low :: rest => do
    let h ← hexDigit? high
    let l ← hexDigit? low
    let bytes ← unhex? rest
    return UInt8.ofNat (16 * h + l) :: bytes

end FieldExpr.Text
