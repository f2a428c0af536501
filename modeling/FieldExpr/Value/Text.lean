import FieldExpr.Value.Basic
import FieldExpr.Decimal.Text
import FieldExpr.Text.Quoted

/-!
# Values as text

The text of a value for a reader: sequences in brackets, records in braces,
strings quoted, names of fields as they are. The structural text names the kind
of every part instead and quotes the names of fields.
-/

namespace FieldExpr.Value

open Text (quoted truth)

mutual

/-- The text of a value. -/
def text : Value → List Char
  | .unit => ['(', ')']
  | .boolean b => truth b
  | .integer n => Text.integer n.toInt
  | .decimal d => d.text
  | .string s => quoted s
  | .sequence items => '[' :: textItems true items ++ [']']
  | .record fields => '\x7b' :: textFields true fields ++ ['\x7d']

/-- Items, separated by commas. -/
def textItems (first : Bool) : List Value → List Char
  | [] => []
  | v :: rest =>
    (if first then [] else [',', ' ']) ++ v.text ++ textItems false rest

/-- Fields, separated by commas. -/
def textFields (first : Bool) : List (String × Value) → List Char
  | [] => []
  | (name, v) :: rest =>
    (if first then [] else [',', ' ']) ++ name.toList ++ [':', ' '] ++ v.text ++
      textFields false rest

end

/-- The text of a value as a string. -/
def display (v : Value) : String :=
  String.ofList v.text

mutual

/-- The text that names the kind of every part. -/
def outline : Value → List Char
  | .unit => "Unit".toList
  | .boolean b => "Boolean(".toList ++ truth b ++ [')']
  | .integer n => "Integer(".toList ++ Text.integer n.toInt ++ [')']
  | .decimal d => "Decimal(".toList ++ d.text ++ [')']
  | .string s => "String(".toList ++ quoted s ++ [')']
  | .sequence items => "Sequence([".toList ++ outlineItems true items ++ "])".toList
  | .record fields =>
    "Record(\x7b".toList ++ outlineFields true fields ++ "\x7d)".toList

/-- Items, separated by commas. -/
def outlineItems (first : Bool) : List Value → List Char
  | [] => []
  | v :: rest =>
    (if first then [] else [',', ' ']) ++ v.outline ++ outlineItems false rest

/-- Fields, separated by commas. -/
def outlineFields (first : Bool) : List (String × Value) → List Char
  | [] => []
  | (name, v) :: rest =>
    (if first then [] else [',', ' ']) ++ quoted name ++ [':', ' '] ++ v.outline ++
      outlineFields false rest

end

end FieldExpr.Value
