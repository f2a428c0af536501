/-!
# Log messages

Operations that report what they do give their messages back as data, in order.
An observer picks the levels that matter.
-/

namespace FieldExpr

/-- How important a message is. -/
inductive LogLevel where
  | error | warn | info | debug | trace
  deriving DecidableEq

namespace LogLevel

/-- How far down the scale of importance a level is. -/
def rank : LogLevel → Nat
  | .error => 1
  | .warn => 2
  | .info => 3
  | .debug => 4
  | .trace => 5

/-- The name of a level. -/
def name : LogLevel → String
  | .error => "ERROR"
  | .warn => "WARN"
  | .info => "INFO"
  | .debug => "DEBUG"
  | .trace => "TRACE"

end LogLevel

/-- A message. -/
structure LogEntry where
  level : LogLevel
  message : String

namespace LogEntry

/-- The entry as one line. -/
def text (e : LogEntry) : String :=
  e.level.name ++ " " ++ e.message

/-- The entries up to a level. -/
def upTo (level : LogLevel) (entries : List LogEntry) : List LogEntry :=
  entries.filter fun e => e.level.rank ≤ level.rank

end LogEntry

end FieldExpr
