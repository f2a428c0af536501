import FieldExpr.Decimal.Basic

/-!
# Values

What a program computes with: unit, truth values, integers, decimals, strings,
sequences and records. A record lists its fields in the order in which they were
set, one field for each name. Two values are the same (`Value.same`) when they
differ at most in the order of record fields and in the scale and sign of zero
of decimals; an integer is never the same as a decimal.
-/

namespace FieldExpr

/-- A value. -/
inductive Value where
  | unit
  | boolean (b : Bool)
  | integer (n : Int64)
  | decimal (d : Decimal)
  | string (s : String)
  | sequence (items : List Value)
  | record (fields : List (String × Value))

/-- The kind of a value, which error messages name. -/
inductive ValueKind where
  | unit | boolean | integer | decimal | string | sequence | record
  deriving DecidableEq, Repr

/-- The name of a kind. -/
def ValueKind.name : ValueKind → String
  | .unit => "unit"
  | .boolean => "boolean"
  | .integer => "integer"
  | .decimal => "decimal"
  | .string => "string"
  | .sequence => "sequence"
  | .record => "record"

/-- The kind with this name. -/
def ValueKind.ofName? (name : String) : Option ValueKind :=
  [.unit, .boolean, .integer, .decimal, .string, .sequence, .record].find?
    (·.name == name)

namespace Value

instance : Inhabited Value := ⟨.unit⟩

/-- A sequence of two. -/
def pair (first second : Value) : Value :=
  .sequence [first, second]

/-- The fields with one more set: an old field of that name keeps its place and
takes the new value. -/
def setField {α : Type} (fields : List (String × α)) (name : String)
    (value : α) : List (String × α) :=
  match fields with
  | [] => [(name, value)]
  | (other, old) :: rest =>
    if other = name then (name, value) :: rest
      else (other, old) :: setField rest name value

/-- The fields that result from setting these one after the other. -/
def fieldsOfList {α : Type} (entries : List (String × α)) : List (String × α) :=
  entries.foldl (fun fields entry => setField fields entry.1 entry.2) []

/-- The kind of a value. -/
def kind : Value → ValueKind
  | .unit => .unit
  | .boolean _ => .boolean
  | .integer _ => .integer
  | .decimal _ => .decimal
  | .string _ => .string
  | .sequence _ => .sequence
  | .record _ => .record

/-- The truth value, if the value is one. -/
def asBoolean? : Value → Option Bool
  | .boolean b => some b
  | _ => none

/-- The string, if the value is one. -/
def asString? : Value → Option String
  | .string s => some s
  | _ => none

/-- The number of elements of a sequence or record. -/
def size? : Value → Option Nat
  | .sequence items => some items.length
  | .record fields => some fields.length
  | _ => none

/-- The element at a position of a sequence, or of a record in the order
of its fields. -/
def element? (v : Value) (index : Nat) : Option Value :=
  match v with
  | .sequence items => items[index]?
  | .record fields => fields[index]?.map (·.2)
  | _ => none

mutual

/-- The two values are the same: decimals by value, records whatever the order
of their fields. -/
def same : Value → Value → Bool
  | .unit, .unit => true
  | .boolean a, .boolean b => a == b
  | .integer a, .integer b => a == b
  | .decimal a, .decimal b => a.same b
  | .string a, .string b => a == b
  | .sequence as, .sequence bs => sameItems as bs
  | .record as, .record bs => as.length == bs.length && sameFields as bs
  | _, _ => false

/-- The two sequences have the same items at each position. -/
def sameItems : List Value → List Value → Bool
  | [], [] => true
  | a :: as, b :: bs => a.same b && sameItems as bs
  | _, _ => false

/-- Each of the first fields is among the second ones, with the same value. -/
def sameFields : List (String × Value) → List (String × Value) → Bool
  | [], _ => true
  | (name, a) :: as, bs =>
    (match bs.lookup name with
      | some b => a.same b
      | none => false) && sameFields as bs

end

mutual

/-- Every record in the value has one field for each name. -/
def WellFormed : Value → Prop
  | .sequence items => WellFormedItems items
  | .record fields => (fields.map (·.1)).Nodup ∧ WellFormedFields fields
  | _ => True

/-- `WellFormed` for every item. -/
def WellFormedItems : List Value → Prop
  | [] => True
  | v :: rest => v.WellFormed ∧ WellFormedItems rest

/-- `WellFormed` for the value of every field. -/
def WellFormedFields : List (String × Value) → Prop
  | [] => True
  | (_, v) :: rest => v.WellFormed ∧ WellFormedFields rest

end

end Value

end FieldExpr
