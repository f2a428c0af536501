import FieldExpr.Artifact.Reading
import FieldExpr.CommandLine.Arguments
import FieldExpr.CommandLine.Help
import FieldExpr.Config.Reading
import FieldExpr.Digest.Basic
import FieldExpr.Evaluation.Evaluator
import FieldExpr.Expression.Compile
import FieldExpr.Json.Writer
import FieldExpr.Program.Disassembly
import FieldExpr.Text.Blank
import FieldExpr.Value.Json

/-!
# Running a command

A command reads its files, does its work and prints a result or the reason of
its failure. Files are given as a function from paths, so a run is a function of
the arguments and of what can be read.
-/

namespace FieldExpr.CommandLine

/-- Why a file cannot be read. -/
inductive FileFault where
  | missing
  | denied
  | notDirectory
  | directory
  | nameTooLong
  | other (description : String)

/-- The system's description of a fault. -/
def FileFault.message : FileFault → String
  | .missing => "No such file or directory (os error 2)"
  | .denied => "Permission denied (os error 13)"
  | .notDirectory => "Not a directory (os error 20)"
  | .directory => "Is a directory (os error 21)"
  | .nameTooLong => "File name too long (os error 36)"
  | .other description => description

/-- What can be read. -/
structure Sources where
  /-- The bytes of the file at a path. -/
  file : String → Except FileFault (List UInt8)
  /-- The bytes of the standard input. -/
  input : Except FileFault (List UInt8)

/-- Why a command fails. -/
inductive Failure where
  | unreadableConfig (path fault : String)
  | invalidConfig (path : String) (error : ConfigError)
  | unreadableProgram (path fault : String)
  | undecodableProgram (path : String) (error : ArtifactError)
  | invalidProgram (path : String) (error : ArtifactError)
  | unreadableSubject (path fault : String)
  | unreadableInput (fault : String)
  | subjectNotJson (error : Json.ReadError)
  | subjectOutOfRange (error : ModelError)
  | evaluation (error : EvaluationError)

/-- The message of an error followed by those of its causes. -/
def artifactChain (error : ArtifactError) : String :=
  match error with
  | .json cause => error.message ++ ": " ++ ArtifactError.jsonMessage cause
  | .malformed cause => error.message ++ ": " ++ cause.message
  | _ => error.message

namespace Failure

/-- What is wrong with a configuration. -/
def configMessage : ConfigError → String
  | .json error => ArtifactError.jsonMessage error
  | .wrongShape => "wrong type or value of a setting"

/-- The message of a failure. -/
def message : Failure → String
  | .unreadableConfig path fault =>
    "Failed to read config '" ++ path ++ "': " ++ fault
  | .invalidConfig path error =>
    "Invalid config '" ++ path ++ "': " ++ configMessage error
  | .unreadableProgram path fault => "Failed to read '" ++ path ++ "': " ++ fault
  | .undecodableProgram path error =>
    "Failed to decode program '" ++ path ++ "': " ++ artifactChain error
  | .invalidProgram path error =>
    path ++ " is not a valid program: " ++ error.message
  | .unreadableSubject path fault =>
    "Failed to read subject '" ++ path ++ "': " ++ fault
  | .unreadableInput fault => "Failed to read subject from stdin: " ++ fault
  | .subjectNotJson error =>
    "Subject is not JSON: " ++ ArtifactError.jsonMessage error
  | .subjectOutOfRange error => error.message
  | .evaluation error => "Evaluation failed: " ++ error.message

end Failure

/-- A run that may fail; the log messages so far are kept either way. -/
abbrev Session (α : Type) := ExceptT Failure (StateM (List LogEntry)) α

namespace Session

/-- Add messages to the log. -/
def report (entries : List LogEntry) : Session Unit :=
  modify (· ++ entries)

/-- A value, or a failure made from an error. -/
def orFail {ε α : Type} (failure : ε → Failure) : Except ε α → Session α
  | .ok a => return a
  | .error error => throw (failure error)

/-- The text of a file or of the input, which has to be UTF-8. -/
def text (failure : String → Failure) (bytes : Except FileFault (List UInt8)) :
    Session String := do
  let bytes ← orFail (fun fault : FileFault => failure fault.message) bytes
  match String.fromUTF8? (ByteArray.mk bytes.toArray) with
  | some text => return text
  | none => throw (failure "stream did not contain valid UTF-8")

/-- The bytes of a text. -/
def bytesOf (text : String) : List UInt8 :=
  text.toUTF8.data.toList

/-- The configuration in a file, or the default one. -/
def loadConfig (sources : Sources) : Option String → Session EngineConfig
  | none => return {}
  | some path => do
    let text ← text (.unreadableConfig path) (sources.file path)
    let config ← orFail (.invalidConfig path) (EngineConfig.ofBytes (bytesOf text))
    report [⟨.debug, "Loaded " ++ config.outline⟩]
    return config

/-- The program in a file. -/
def loadProgram (sources : Sources) (config : EngineConfig) (path : String) :
    Session Program := do
  let bytes ← orFail
    (fun fault : FileFault => .unreadableProgram path fault.message)
    (sources.file path)
  orFail (.undecodableProgram path) (Program.ofBytes config bytes)

/-- The containers that a subject's document may nest. -/
def subjectNesting : Nat := 127

/-- The subject in a file or from the input. Blank text stands for unit. -/
def loadSubject (sources : Sources) (path : Option String) : Session Value := do
  let text ← match path with
    | some path => text (.unreadableSubject path) (sources.file path)
    | none => text .unreadableInput sources.input
  if Text.allBlank text then return .unit
  let document ← orFail .subjectNotJson
    (Json.parse { maxOpen := some subjectNesting } (bytesOf text))
  orFail .subjectOutOfRange (Value.ofJson document)

/-- A document as a line or more of text. -/
def documentLines (document : Json) (indented : Bool) : String :=
  (if indented then document.indented else document.compact) ++ "\n"

end Session

/-- The expression of a sample program. -/
def Sample.expression : Sample → Expression
  | .increment =>
    .letIn "x" (.integer 41) (.binaryMath .add .integer (.var "x") (.integer 1))
  | .diverge =>
    .letIn "b" .identity
      (.diverge (.equalTo .integer (.var "b") (.integer 0)) (.integer 0)
        (.binaryMath .divide .integer (.integer 100) (.var "b")))

open Session in
/-- What evaluating a program prints. -/
def printEvaluation (sources : Sources) (config : EngineConfig)
    (subject : Option String) (indented : Bool) (program : Program) :
    Session String := do
  let subject ← loadSubject sources subject
  let evaluation :=
    program.evaluation config { decimalScale := config.decimalScale } subject
  report (evaluation.log program)
  let value ← orFail .evaluation evaluation.result
  return documentLines value.toJson indented

/-- What inspecting a program prints. -/
def inspection (program : Program) : String :=
  program.disassembly ++ "\nnodes:  " ++
    String.ofList (Text.natural program.nodeCount) ++
    "\ndepth:  " ++ String.ofList (Text.natural program.depth) ++
    "\ndigest: " ++ program.digest.hex ++ "\n"

open Session in
/-- What a command prints. -/
def Command.print (sources : Sources) (config : EngineConfig) :
    Command → Session String
  | .eval path subject indented => do
    let program ← loadProgram sources config path
    printEvaluation sources config subject indented program
  | .inspect path => do
    let program ← loadProgram sources config path
    return inspection program
  | .digest path => do
    let program ← loadProgram sources config path
    return program.digest.hex ++ "\n"
  | .check path => do
    let bytes ← orFail
      (fun fault : FileFault => .unreadableProgram path fault.message)
      (sources.file path)
    -- The scopes are checked whatever the configuration says.
    let _ ← orFail (.invalidProgram path)
      (Program.ofBytes { config with validateOnDecode := true } bytes)
    return "OK\n"
  | .sample name indented => do
    let compiled := name.expression.compileWith 0
    report (Expression.compileLog compiled)
    return documentLines compiled.1.toArtifact indented

/-- What a run leaves behind: an exit code, two texts, and the log messages. -/
structure Outcome where
  code : UInt8
  output : String
  errors : String
  log : List LogEntry := []

/-- The outcome of a run that starts with an empty log. -/
def Session.outcome (session : Session String) : Outcome :=
  match StateT.run (ExceptT.run session) [] with
  | (.ok output, log) => { code := 0, output, errors := "", log }
  | (.error failure, log) =>
    { code := 1, output := "", errors := "Error: " ++ failure.message ++ "\n", log }

/-- The outcome of an invocation. -/
def Invocation.run (sources : Sources) (i : Invocation) : Outcome :=
  Session.outcome do
    let config ← Session.loadConfig sources i.config
    i.command.print sources config

/-- The outcome of a request. -/
def Request.run (sources : Sources) : Request → Outcome
  | .invoke invocation => invocation.run sources
  | .help place brief => { code := 0, output := place.helpPage brief, errors := "" }
  | .version => { code := 0, output := programName ++ " 0.1.0\n", errors := "" }
  | .unusable =>
    { code := 2, output := "",
      errors :=
        "error: invalid arguments\n\nFor more information, try '--help'.\n" }

end FieldExpr.CommandLine
