import FieldExpr.Json.Basic

/-!
# Writing JSON

The compact form has no blanks; the indented form puts every item and entry on a
line of its own, two spaces per level, and keeps empty containers together.
Strings escape the quote, the backslash and the controls below the space, and
nothing else. Each writer puts its text in front of what follows, so that texts
of nested documents are built in one pass.
-/

namespace FieldExpr.Json

/-- The escape of one character inside a JSON string. -/
def escapeChar (c : Char) : List Char :=
  match c with
  | '"' => ['\\', '"']
  | '\\' => ['\\', '\\']
  | '\x08' => ['\\', 'b']
  | '\x0c' => ['\\', 'f']
  | '\n' => ['\\', 'n']
  | '\r' => ['\\', 'r']
  | '\t' => ['\\', 't']
  | c =>
    if c.toNat < 0x20 then
      ['\\', 'u', '0', '0', Nat.digitChar (c.toNat / 16),
        Nat.digitChar (c.toNat % 16)]
    else [c]

/-- Escaped characters in front of what follows. -/
def writeChars : List Char → List Char → List Char
  | [], rest => rest
  | c :: chars, rest => escapeChar c ++ writeChars chars rest

/-- A string between quotes. -/
def writeString (s : String) (rest : List Char) : List Char :=
  '"' :: writeChars s.toList ('"' :: rest)

mutual

/-- The compact text of a document, in front of `rest`. -/
def write : Json → List Char → List Char
  | .null, rest => "null".toList ++ rest
  | .boolean true, rest => "true".toList ++ rest
  | .boolean false, rest => "false".toList ++ rest
  | .number n, rest => n.text ++ rest
  | .string s, rest => writeString s rest
  | .array items, rest => '[' :: writeItems true items (']' :: rest)
  | .object entries, rest => '\x7b' :: writeEntries true entries ('\x7d' :: rest)

/-- Items, each but the first after a comma. -/
def writeItems (first : Bool) : List Json → List Char → List Char
  | [], rest => rest
  | item :: items, rest =>
    let text := item.write (writeItems false items rest)
    if first then text else ',' :: text

/-- Entries, each but the first after a comma. -/
def writeEntries (first : Bool) : List (String × Json) → List Char → List Char
  | [], rest => rest
  | (key, value) :: entries, rest =>
    let text := writeString key
      (':' :: value.write (writeEntries false entries rest))
    if first then text else ',' :: text

end

/-- The compact text of a document. -/
def compact (j : Json) : String :=
  String.ofList (j.write [])

/-! ## Indented text -/

/-- A new line at a level. -/
def newLine (level : Nat) (rest : List Char) : List Char :=
  '\n' :: List.replicate (2 * level) ' ' ++ rest

mutual

/-- The indented text of a document that stands at `level`, in front of `rest`. -/
def writeIndented (level : Nat) : Json → List Char → List Char
  | .array [], rest => '[' :: ']' :: rest
  | .array items, rest =>
    '[' :: writeIndentedItems (level + 1) true items (newLine level (']' :: rest))
  | .object [], rest => '\x7b' :: '\x7d' :: rest
  | .object entries, rest =>
    '\x7b' :: writeIndentedEntries (level + 1) true entries
      (newLine level ('\x7d' :: rest))
  | other, rest => other.write rest

/-- Items on lines of their own. -/
def writeIndentedItems (level : Nat) (first : Bool) :
    List Json → List Char → List Char
  | [], rest => rest
  | item :: items, rest =>
    let text := newLine level
      (item.writeIndented level (writeIndentedItems level false items rest))
    if first then text else ',' :: text

/-- Entries on lines of their own. -/
def writeIndentedEntries (level : Nat) (first : Bool) :
    List (String × Json) → List Char → List Char
  | [], rest => rest
  | (key, value) :: entries, rest =>
    let text := newLine level (writeString key
      (':' :: ' ' :: value.writeIndented level
        (writeIndentedEntries level false entries rest)))
    if first then text else ',' :: text

end

/-- The indented text of a document. -/
def indented (j : Json) : String :=
  String.ofList (j.writeIndented 0 [])

end FieldExpr.Json
