import FieldExpr.CommandLine.Session

/-!
# The program

Reads what the arguments name, runs the command, and prints what it leaves behind.
-/

namespace FieldExpr.CommandLine

/-- The files that an invocation may read. -/
def paths (i : Invocation) : List String :=
  i.config.toList ++ match i.command with
    | .eval program subject _ => program :: subject.toList
    | .inspect program | .digest program | .check program => [program]
    | .sample _ _ => []

/-- Whether an invocation reads the standard input. -/
def readsInput (i : Invocation) : Bool :=
  match i.command with
  | .eval _ none _ => true
  | _ => false

/-- The fault behind an error of the system, whose codes come with either sign. -/
def faultOf : IO.Error → FileFault
  | .noFileOrDirectory .. => .missing
  | .permissionDenied .. => .denied
  | .inappropriateType _ code _ =>
    if code = 20 ∨ code = -20 then .notDirectory else .directory
  | .invalidArgument _ code details =>
    if code = 36 ∨ code = -36 then .nameTooLong else .other details
  | other => .other (toString other)

/-- The bytes that an action reads, or its fault. -/
def attempt (action : IO ByteArray) : IO (Except FileFault (List UInt8)) := do
  match ← action.toBaseIO with
  | .ok bytes => return .ok bytes.data.toList
  | .error error => return .error (faultOf error)

/-- All bytes of a stream. -/
partial def readAll (stream : IO.FS.Stream) (done : ByteArray) : IO ByteArray := do
  let bytes ← stream.read 65536
  if bytes.isEmpty then return done else readAll stream (done ++ bytes)

/-- What an invocation may read, read in advance. -/
def gather (i : Invocation) : IO Sources := do
  let files ← (paths i).mapM fun (path : String) =>
    return (path, ← attempt (IO.FS.readBinFile path))
  let input ←
    if readsInput i then attempt (do readAll (← IO.getStdin) ByteArray.empty)
    else pure (.ok [])
  return { file := fun path => (files.lookup path).getD (.error .missing), input }

/-- The messages that a verbosity asks for. -/
def levelOf : Nat → LogLevel
  | 0 => .warn
  | 1 => .debug
  | _ => .trace

end FieldExpr.CommandLine

open FieldExpr FieldExpr.CommandLine in
/-- The command line. -/
def main (arguments : List String) : IO UInt32 := do
  let request := Request.ofArguments arguments
  let (outcome, level) ← match request with
    | .invoke i => pure (i.run (← gather i), levelOf i.verbosity)
    | other =>
      pure (other.run { file := fun _ => .error .missing, input := .ok [] }, .warn)
  for entry in LogEntry.upTo level outcome.log do
    IO.eprintln entry.text
  IO.eprint outcome.errors
  IO.print outcome.output
  return outcome.code.toUInt32
