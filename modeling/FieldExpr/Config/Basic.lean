import FieldExpr.Json.Writer

/-!
# Engine configuration

The limits and switches that reading and evaluating programs share.
-/

namespace FieldExpr

/-- Configuration of reading and evaluation. -/
structure EngineConfig where
  /-- How deep one evaluation may nest. -/
  maxDepth : UInt64 := 256
  /-- The fraction digits that decimal division keeps; without a number, all of
  them. -/
  decimalScale : Option UInt32 := none
  /-- Whether the scopes of a program are checked when it is read. -/
  validateOnDecode : Bool := true
  deriving DecidableEq

namespace EngineConfig

/-- The written form of the scale. -/
def scaleText (config : EngineConfig) (absent : String)
    (present : List Char → List Char) : List Char :=
  match config.decimalScale with
  | none => absent.toList
  | some scale => present (Text.natural scale.toNat)

/-- The configuration as compact JSON, with its members in the order of
declaration. -/
def text (config : EngineConfig) : String :=
  String.ofList ("\x7b\"max_depth\":".toList ++
    Text.natural config.maxDepth.toNat ++ ",\"decimal_scale\":".toList ++
      config.scaleText "null" id ++
    ",\"validate_on_decode\":".toList ++ Text.truth config.validateOnDecode ++
      ['\x7d'])

/-- The configuration as an outline of its parts. -/
def outline (config : EngineConfig) : String :=
  String.ofList ("EngineConfig \x7b max_depth: ".toList ++
    Text.natural config.maxDepth.toNat ++ ", decimal_scale: ".toList ++
      config.scaleText "None" (fun scale => "Some(".toList ++ scale ++ [')']) ++
    ", validate_on_decode: ".toList ++ Text.truth config.validateOnDecode ++
      " \x7d".toList)

end EngineConfig

end FieldExpr
