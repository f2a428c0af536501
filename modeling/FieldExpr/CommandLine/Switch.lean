/-!
# Commands and switches

The names that arguments may use. A switch is known in some places: in front of
the command, or behind the name of one. The switches that every command knows
may also stand in front of it.
-/

namespace FieldExpr.CommandLine

/-- The name of a command. -/
inductive CommandName where
  | eval | inspect | digest | check | sample | help
  deriving DecidableEq, Repr

namespace CommandName

/-- All commands, in the order in which they are listed. -/
def all : List CommandName :=
  [.eval, .inspect, .digest, .check, .sample, .help]

/-- The word that names a command. -/
def word : CommandName → String
  | .eval => "eval"
  | .inspect => "inspect"
  | .digest => "digest"
  | .check => "check"
  | .sample => "sample"
  | .help => "help"

/-- The command that a word names. -/
def ofWord? (word : String) : Option CommandName :=
  all.find? fun name => name.word == word

end CommandName

/-- The sample programs. -/
inductive Sample where
  | increment | diverge
  deriving DecidableEq, Repr

namespace Sample

/-- All samples, in the order in which they are listed. -/
def all : List Sample :=
  [.increment, .diverge]

/-- The word that names a sample. -/
def word : Sample → String
  | .increment => "increment"
  | .diverge => "diverge"

/-- The sample that a word names. -/
def ofWord? (word : String) : Option Sample :=
  all.find? fun sample => sample.word == word

end Sample

/-- A named argument. -/
inductive Switch where
  | verbose | config | subject | pretty | help | version
  deriving DecidableEq, Repr

namespace Switch

/-- The long name, after two dashes. -/
def long : Switch → List Char
  | .verbose => "verbose".toList
  | .config => "config".toList
  | .subject => "subject".toList
  | .pretty => "pretty".toList
  | .help => "help".toList
  | .version => "version".toList

/-- The short name, after one dash. -/
def short? : Switch → Option Char
  | .verbose => some 'v'
  | .config => none
  | .subject => some 's'
  | .pretty => some 'p'
  | .help => some 'h'
  | .version => some 'V'

/-- Whether a value belongs to the switch. -/
def takesValue : Switch → Bool
  | .config | .subject => true
  | _ => false

/-- Whether the switch counts anew each time it is given. -/
def repeats : Switch → Bool
  | .verbose => true
  | _ => false

end Switch

/-- Where a switch may stand. -/
inductive Place where
  /-- In front of the command. -/
  | front
  | behind (name : CommandName)
  deriving DecidableEq, Repr

/-- The switches known in a place, in the order in which they are listed. -/
def Place.known : Place → List Switch
  | .front => [.verbose, .config, .help, .version]
  | .behind .eval => [.subject, .verbose, .config, .pretty, .help]
  | .behind .sample => [.pretty, .verbose, .config, .help]
  | .behind .help => []
  | .behind _ => [.verbose, .config, .help]

end FieldExpr.CommandLine
