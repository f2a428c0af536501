import FieldExpr.CommandLine.Switch

/-!
# Command line arguments

What a list of arguments asks for. A command takes one operand and some
switches; the switches that every command knows may also stand in front of it,
and where both places give a value, the one behind the command counts. Arguments
are taken from left to right, and the first one that is wrong, or that asks for
help, decides. A value that is an argument of its own is looked at with the next
switch of its place, or at the end of its place: in front of the command, that
is after the command has been read.
-/

namespace FieldExpr.CommandLine

/-- What to do, and with which files. -/
inductive Command where
  /-- Evaluate a program against the subject in a file, or else from the input. -/
  | eval (program : String) (subject : Option String) (indented : Bool)
  /-- Show the disassembly and the measures of a program. -/
  | inspect (program : String)
  /-- Show the digest of a program. -/
  | digest (program : String)
  /-- Tell whether a program can be read and is well scoped. -/
  | check (program : String)
  /-- Write a sample program. -/
  | sample (name : Sample) (indented : Bool)
  deriving DecidableEq

/-- A command with the switches that all commands share. -/
structure Invocation where
  /-- How often more log messages were asked for. -/
  verbosity : Nat
  /-- The file of the configuration. -/
  config : Option String
  command : Command
  deriving DecidableEq

/-- What the arguments ask for. -/
inductive Request where
  | invoke (invocation : Invocation)
  /-- The help page of a place. -/
  | help (place : Place) (brief : Bool)
  | version
  /-- Nothing: some argument is wrong or missing. -/
  | unusable
  deriving DecidableEq

/-- Why no more arguments are looked at. -/
inductive Stop where
  | help (place : Place) (brief : Bool)
  | version
  | unusable
  deriving DecidableEq

/-- What one place has been given. -/
structure Given where
  verbosity : Nat := 0
  config : Option String := none
  subject : Option String := none
  indented : Bool := false

/-- The last switch, as far as it has not been looked at. -/
inductive Pending where
  | nothing
  /-- A switch whose value comes next. -/
  | awaited (switch : Switch)
  /-- A switch with a value that was an argument of its own. -/
  | held (switch : Switch) (value : String)

namespace Given

/-- Give a switch without a value. Only the call for more messages may be
repeated. A call for help by its short name asks for the brief page. -/
def flag (g : Given) (place : Place) (brief : Bool) : Switch → Except Stop Given
  | .verbose => .ok { g with verbosity := g.verbosity + 1 }
  | .pretty =>
    if g.indented then .error .unusable else .ok { g with indented := true }
  | .help => .error (.help place brief)
  | .version => .error .version
  | .config | .subject => .error .unusable

/-- Give a switch with a value, which is not empty and is given once. -/
def setting (g : Given) (switch : Switch) (value : String) : Except Stop Given :=
  if value.isEmpty then .error .unusable
  else match switch, g.config, g.subject with
    | .config, none, _ => .ok { g with config := some value }
    | .subject, _, none => .ok { g with subject := some value }
    | _, _, _ => .error .unusable

/-- Look at what is pending. -/
def settle (g : Given) : Pending → Except Stop Given
  | .nothing => .ok g
  | .awaited _ => .error .unusable
  | .held switch value => g.setting switch value

end Given

/-- The characters behind an equals sign at the front, or all of them. -/
def withoutEquals : List Char → List Char
  | '=' :: rest => rest
  | other => other

/-- Short switches that share a dash. The characters behind one that takes a
value are its value; if there are none, the switch awaits the next argument. -/
def takeShort (place : Place) (g : Given) :
    List Char → Except Stop (Given × Pending)
  | [] => .ok (g, .nothing)
  | c :: rest =>
    match place.known.find? fun switch => switch.short? == some c with
    | none => .error .unusable
    | some switch =>
      if switch.takesValue then
        if rest.isEmpty then .ok (g, .awaited switch)
        else do return (← g.setting switch (String.ofList (withoutEquals rest)),
          .nothing)
      else do takeShort place (← g.flag place true switch) rest

/-- A long switch, with the value behind an equals sign or in the next argument. -/
def takeLong (place : Place) (g : Given) (text : List Char) :
    Except Stop (Given × Pending) :=
  let name := text.takeWhile (· != '=')
  let value := text.dropWhile (· != '=')
  match place.known.find? fun switch => switch.long == name with
  | none => .error .unusable
  | some switch =>
    match value, switch.takesValue with
    | [], true => .ok (g, .awaited switch)
    | [], false => do return (← g.flag place false switch, .nothing)
    | _ :: value, true => do
      return (← g.setting switch (String.ofList value), .nothing)
    | _ :: _, false => .error .unusable

/-- What an argument is by its first characters. -/
inductive Form where
  /-- Two dashes alone, behind which no argument is a switch. -/
  | divider
  | long (text : List Char)
  | short (text : List Char)
  | word

/-- The form of an argument. A dash alone is a word. -/
def Form.of (argument : List Char) : Form :=
  match argument with
  | ['-', '-'] => .divider
  | '-' :: '-' :: text => .long text
  | '-' :: c :: text => .short (c :: text)
  | _ => .word

/-- Take arguments up to the first word that is not a value; it stays in front
of the others. `plain` says that a divider has been passed. -/
def takeSwitches (place : Place) (g : Given) (pending : Pending) (plain : Bool) :
    List String → Except Stop (Given × Pending × Bool × List String)
  | [] => .ok (g, pending, plain, [])
  | argument :: rest =>
    let form := if plain then Form.word else Form.of argument.toList
    match form, pending with
    | .word, .awaited switch =>
      takeSwitches place g (.held switch argument) plain rest
    | .word, _ => .ok (g, pending, plain, argument :: rest)
    | .divider, .awaited _ => .error .unusable
    | .divider, _ => takeSwitches place g pending true rest
    | .long text, _ => do
      let (g, pending) ← takeLong place (← g.settle pending) text
      takeSwitches place g pending plain rest
    | .short text, _ => do
      let (g, pending) ← takeShort place (← g.settle pending) text
      takeSwitches place g pending plain rest

/-- The switches and the operand of a command, as far as the operand is one that
`read` knows. -/
def takeCommand {α : Type} (place : Place) (read : String → Option α)
    (arguments : List String) :
    Except Stop (Given × α) := do
  let (g, pending, plain, rest) ← takeSwitches place {} .nothing false arguments
  let g ← g.settle pending
  match rest with
  | [] => .error .unusable
  | word :: rest =>
    match read word with
    | none => .error .unusable
    | some operand =>
      let (g, pending, _, rest) ← takeSwitches place g .nothing plain rest
      if rest.isEmpty then return (← g.settle pending, operand)
        else .error .unusable

/-- A path, which is not empty. -/
def path? (word : String) : Option String :=
  if word.isEmpty then none else some word

/-- The place that a list of topics names: the front if there are none. -/
def topic? : List String → Option Place
  | [] => some .front
  | [word] => (CommandName.ofWord? word).map .behind
  | _ => none

/-- The command of a name and what follows it, and what it was given. -/
def readCommand (name : CommandName) (arguments : List String) :
    Except Stop (Command × Given) := do
  let place := Place.behind name
  match name with
  | .eval =>
    let (g, program) ← takeCommand place path? arguments
    return (.eval program g.subject g.indented, g)
  | .inspect =>
    let (g, program) ← takeCommand place path? arguments
    return (.inspect program, g)
  | .digest =>
    let (g, program) ← takeCommand place path? arguments
    return (.digest program, g)
  | .check =>
    let (g, program) ← takeCommand place path? arguments
    return (.check program, g)
  | .sample =>
    let (g, sample) ← takeCommand place Sample.ofWord? arguments
    return (.sample sample g.indented, g)
  | .help =>
    match topic? arguments with
    | some topic => .error (.help topic false)
    | none => .error .unusable

/-- The invocation that a list of arguments describes. -/
def readInvocation (arguments : List String) : Except Stop Invocation := do
  let (before, pending, plain, rest) ← takeSwitches .front
    {} .nothing false arguments
  match plain, rest with
  | false, word :: rest =>
    match CommandName.ofWord? word with
    | none => .error .unusable
    | some name =>
      let (command, behind) ← readCommand name rest
      -- What is pending in front is looked at last, so a stop behind the
      -- command comes before it.
      let before ← before.settle pending
      return {
        verbosity := if behind.verbosity = 0 then before.verbosity
          else behind.verbosity
        config := behind.config.orElse fun _ => before.config
        command }
  | _, _ => .error .unusable

/-- What a list of arguments asks for. -/
def Request.ofArguments (arguments : List String) : Request :=
  match readInvocation arguments with
  | .ok invocation => .invoke invocation
  | .error (.help place brief) => .help place brief
  | .error .version => .version
  | .error .unusable => .unusable

end FieldExpr.CommandLine
