/-!
# Blank characters

The characters with the white space property. Text that holds nothing else
counts as empty.
-/

namespace FieldExpr.Text

/-- A character with the white space property. -/
def isBlank (c : Char) : Bool :=
  let n := c.toNat
  (decide (9 ≤ n) && decide (n ≤ 13)) || n == 0x20 || n == 0x85 ||
    n == 0xa0 || n == 0x1680 || (decide (0x2000 ≤ n) && decide (n ≤ 0x200a)) ||
    n == 0x2028 || n == 0x2029 || n == 0x202f || n == 0x205f || n == 0x3000

/-- Text of blank characters only. -/
def allBlank (s : String) : Bool :=
  s.toList.all isBlank

end FieldExpr.Text
