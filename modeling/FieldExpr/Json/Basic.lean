import FieldExpr.Json.Number

/-!
# JSON documents

A document is a tree. An object is the list of its entries; the functions that build
objects keep the entries in ascending order of their keys, with one entry for each
key, and `insert` says how: a later entry replaces an earlier one of the same key.
-/

namespace FieldExpr

/-- A JSON document. -/
inductive Json where
  | null
  | boolean (b : Bool)
  | number (n : Json.Number)
  | string (s : String)
  | array (items : List Json)
  | object (entries : List (String × Json))

namespace Json

instance : Inhabited Json := ⟨.null⟩

/-- Entries with one more: it goes before the first greater key, and replaces an
entry of the same key. -/
def insert {α : Type} (key : String) (value : α) :
    List (String × α) → List (String × α)
  | [] => [(key, value)]
  | (other, old) :: rest =>
    if key < other then (key, value) :: (other, old) :: rest
    else if key = other then (key, value) :: rest
    else (other, old) :: insert key value rest

/-- Entries in ascending order of their keys; of two entries with one key the
later one stays. -/
def ordered {α : Type} (entries : List (String × α)) : List (String × α) :=
  entries.foldl (fun done entry => insert entry.1 entry.2 done) []

/-- The object with these entries. -/
def ofEntries (entries : List (String × Json)) : Json :=
  .object (ordered entries)

/-- The member of an object under a key; `none` for anything but an object. -/
def get? (key : String) : Json → Option Json
  | .object entries => entries.lookup key
  | _ => none

/-- The string, if the document is one. -/
def asString? : Json → Option String
  | .string s => some s
  | _ => none

/-- The truth value, if the document is one. -/
def asBoolean? : Json → Option Bool
  | .boolean b => some b
  | _ => none

/-- The signed 64-bit integer, if the document is one. -/
def asInt64? : Json → Option Int64
  | .number n => n.toInt64?
  | _ => none

/-- The unsigned 64-bit integer, if the document is one. -/
def asUInt64? : Json → Option UInt64
  | .number n => n.toUInt64?
  | _ => none

mutual

/-- The document with the entries of every object, at every level, in ascending
order of their keys. -/
def sortKeys : Json → Json
  | .array items => .array (sortKeysItems items)
  | .object entries => ofEntries (sortKeysEntries entries)
  | other => other

/-- `sortKeys` on the items of an array. -/
def sortKeysItems : List Json → List Json
  | [] => []
  | item :: rest => item.sortKeys :: sortKeysItems rest

/-- `sortKeys` on the values of entries. -/
def sortKeysEntries : List (String × Json) → List (String × Json)
  | [] => []
  | (key, value) :: rest => (key, value.sortKeys) :: sortKeysEntries rest

end

end Json

end FieldExpr
