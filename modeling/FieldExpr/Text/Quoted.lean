import FieldExpr.Text.Invisible

/-!
# Quoted text

How a value's text shows a string: between double quotes, with short escapes for the
common controls and `\u{…}` for every other character that a page would not show.
-/

namespace FieldExpr.Text

/-- The escape of one character inside quoted text. An apostrophe stands for
itself. -/
def quoteChar (c : Char) : List Char :=
  match c with
  | '"' => ['\\', '"']
  | '\\' => ['\\', '\\']
  | '\n' => ['\\', 'n']
  | '\r' => ['\\', 'r']
  | '\t' => ['\\', 't']
  | '\x00' => ['\\', '0']
  | c =>
    if isInvisible c then ['\\', 'u', '\x7b'] ++ Nat.toDigits 16 c.toNat ++
      ['\x7d'] else [c]

/-- A string between double quotes. -/
def quoted (s : String) : List Char :=
  '"' :: s.toList.flatMap quoteChar ++ ['"']

end FieldExpr.Text
