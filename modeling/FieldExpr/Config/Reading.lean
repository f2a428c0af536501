import FieldExpr.Config.Basic
import FieldExpr.Json.Reader

/-!
# Reading a configuration

A configuration is an object, whose unknown members are skipped and whose known
ones may stand once each, or an array of the settings in order. What is missing
keeps its default. The text is read from left to right, so a setting of the
wrong kind is reported before a syntax error behind it.
-/

namespace FieldExpr

/-- Why a text is not a configuration. -/
inductive ConfigError where
  /-- The text is not JSON. -/
  | json (error : Json.ReadError)
  /-- A document of the wrong shape. -/
  | wrongShape
  deriving DecidableEq

namespace EngineConfig

/-- Reading from the bytes that are left. -/
abbrev Reading (α : Type) := StateT (List UInt8) (Except ConfigError) α

/-- Give up. -/
def fail {α : Type} (error : ConfigError) : Reading α :=
  fun _ => .error error

/-- The next byte that is not blank; it is not taken. -/
def peek : Reading (Option UInt8) :=
  fun bytes =>
    let bytes := bytes.dropWhile Json.isBlank
    .ok (bytes.head?, bytes)

/-- Take the next byte. -/
def skip : Reading Unit :=
  modify (·.drop 1)

/-- The document at the front. -/
def document (options : Json.ReadOptions) : Reading Json :=
  fun bytes =>
    match Json.read options bytes with
    | .ok result => .ok result
    | .error error => .error (.json error)

/-- A setting that is not a container: a container is of the wrong shape from
its first byte on. -/
def scalar : Reading Json := do
  match ← peek with
  | none => fail (.json .endOfInput)
  | some b => if b = 0x5b ∨ b = 0x7b then fail .wrongShape else document {}

/-- The depth limit. -/
def readMaxDepth : Reading UInt64 := do
  match (← scalar).asUInt64? with
  | some n => return n
  | none => fail .wrongShape

/-- The scale, or null. -/
def readDecimalScale : Reading (Option UInt32) := do
  match ← scalar with
  | .null => return none
  | other =>
    match other.asUInt64? with
    | some n => if n < 0x100000000 then return some n.toUInt32 else fail .wrongShape
    | none => fail .wrongShape

/-- A switch. -/
def readSwitch : Reading Bool := do
  match (← scalar).asBoolean? with
  | some b => return b
  | none => fail .wrongShape

/-- Whether one more item follows in an array, behind its comma. -/
def anotherItem (first : Bool) : Reading Bool := do
  match ← peek with
  | none => fail (.json .endOfInput)
  | some b =>
    if b = 0x5d then return false
    else if first then return true
    else if b = 0x2c then
      skip
      match ← peek with
      | none => fail (.json .endOfInput)
      | some b => if b = 0x5d then fail (.json .malformed) else return true
    else fail (.json .malformed)

/-- The closing bracket. -/
def endArray : Reading Unit := do
  match ← peek with
  | none => fail (.json .endOfInput)
  | some b => if b = 0x5d then skip else fail (.json .malformed)

/-- The settings in order, behind the opening bracket. -/
def readArray : Reading EngineConfig := do
  -- Settings may be missing at the end, and then have their defaults.
  let config : EngineConfig := {}
  if !(← anotherItem true) then
    endArray
    return config
  let config := { config with maxDepth := ← readMaxDepth }
  if !(← anotherItem false) then
    endArray
    return config
  let config := { config with decimalScale := ← readDecimalScale }
  if !(← anotherItem false) then
    endArray
    return config
  let config := { config with validateOnDecode := ← readSwitch }
  endArray
  return config

/-- The settings that an object has named so far. -/
structure Named where
  maxDepth : Option UInt64 := none
  decimalScale : Option (Option UInt32) := none
  validateOnDecode : Option Bool := none

/-- The configuration of named settings. -/
def Named.config (n : Named) : EngineConfig :=
  { maxDepth := n.maxDepth.getD ({} : EngineConfig).maxDepth
    decimalScale := n.decimalScale.getD ({} : EngineConfig).decimalScale
    validateOnDecode :=
      n.validateOnDecode.getD ({} : EngineConfig).validateOnDecode }

/-- Whether one more member follows in an object, behind its comma. -/
def anotherMember (first : Bool) : Reading Bool := do
  match ← peek with
  | none => fail (.json .endOfInput)
  | some b =>
    if b = 0x7d then
      skip
      return false
    else if b = 0x22 ∧ first then return true
    else if b = 0x2c ∧ !first then
      skip
      match ← peek with
      | none => fail (.json .endOfInput)
      | some b => if b = 0x22 then return true else fail (.json .malformed)
    else fail (.json .malformed)

/-- The colon behind a key. -/
def colon : Reading Unit := do
  match ← peek with
  | none => fail (.json .endOfInput)
  | some b => if b = 0x3a then skip else fail (.json .malformed)

/-- One member: its key, a colon and its value. A known key must not come twice. -/
def readMember (n : Named) : Reading Named := do
  match (← document {}).asString? with
  | some "max_depth" =>
    if n.maxDepth.isSome then fail .wrongShape
    colon
    return { n with maxDepth := some (← readMaxDepth) }
  | some "decimal_scale" =>
    if n.decimalScale.isSome then fail .wrongShape
    colon
    return { n with decimalScale := some (← readDecimalScale) }
  | some "validate_on_decode" =>
    if n.validateOnDecode.isSome then fail .wrongShape
    colon
    return { n with validateOnDecode := some (← readSwitch) }
  | _ =>
    -- A member of another name is read over; its numbers and strings need not
    -- stand for anything.
    colon
    let _ ← document { skim := true }
    return n

/-- The members of an object, behind the opening brace. Every member takes
bytes, so there are at most as many rounds as there are bytes. -/
def readMembers (n : Named) (first : Bool) : (rounds : Nat) → Reading Named
  | 0 => fail (.json .endOfInput)
  | rounds + 1 => do
    if ← anotherMember first then readMembers (← readMember n) false rounds
      else return n

/-- A configuration with blanks around it. -/
def readDocument : Reading EngineConfig := do
  let config ← match ← peek with
    | none => fail (.json .endOfInput)
    | some b =>
      if b = 0x5b then do
        skip
        readArray
      else if b = 0x7b then do
        skip
        let named ← readMembers {} true ((← get).length + 1)
        pure named.config
      else do
        -- A syntax error in what stands there is reported before the wrong shape.
        let _ ← scalar
        fail .wrongShape
  match ← peek with
  | none => return config
  | some _ => fail (.json .malformed)

/-- The configuration that a text is. -/
def ofBytes (bytes : List UInt8) : Except ConfigError EngineConfig :=
  (readDocument bytes).map (·.1)

end EngineConfig

end FieldExpr
