import FieldExpr.Value.Basic
import FieldExpr.Text.Digits

/-!
# Paths into a value

A path is a list of segments; each names a field of a record or, as an unsigned
number, a position of a sequence. It is written with a dot between segments.
-/

namespace FieldExpr

/-- The parts of a text between dots; there is always one more of them than dots. -/
def splitDots : List Char → List (List Char)
  | [] => [[]]
  | '.' :: rest => [] :: splitDots rest
  | c :: rest =>
    match splitDots rest with
    | [] => [[c]]
    | part :: parts => (c :: part) :: parts

/-- The segments of a written path. -/
def pathSegments (path : String) : List String :=
  (splitDots path.toList).map String.ofList

namespace Value

/-- One step along a path. -/
def segment? (v : Value) (segment : String) : Option Value :=
  match v with
  | .record fields => fields.lookup segment
  | .sequence items =>
    (Text.unsigned? 0x10000000000000000 segment.toList).bind fun index =>
      items[index]?
  | _ => none

/-- The part of a value that a path leads to. -/
def path? (v : Value) : List String → Option Value
  | [] => some v
  | segment :: rest => (v.segment? segment).bind fun part => part.path? rest

end Value

end FieldExpr
