import FieldExpr.CommandLine.Switch

/-!
# Help pages

Each place where switches stand has a page: what it is for, how it is used, and its
operands and switches. A page is written in rows of two columns; where a row has
values of its own to explain, the full page gives every row a paragraph instead.
-/

namespace FieldExpr.CommandLine

/-- The name under which the program is called. -/
def programName : String :=
  "remote-expression"

/-! ## Rows -/

/-- A name with what it stands for, and the values that it may have with what
each of them stands for. -/
structure HelpRow where
  name : String
  purpose : String
  values : List (String × String) := []

namespace HelpRow

/-- As many spaces. -/
def blanks (count : Nat) : String :=
  String.ofList (List.replicate count ' ')

/-- The name and spaces up to `width`. -/
def padded (width : Nat) (name : String) : String :=
  name ++ blanks (width - name.length)

/-- The length of the longest of some names. -/
def widest (names : List String) : Nat :=
  (names.map String.length).foldl max 0

/-- Rows of two columns. -/
def columns (rows : List HelpRow) : List String :=
  let width := widest (rows.map name)
  rows.map fun row =>
    let values := String.intercalate ", " (row.values.map Prod.fst)
    "  " ++ padded width row.name ++ "  " ++ row.purpose ++
      (if row.values.isEmpty then "" else " [possible values: " ++ values ++ "]")

/-- A row as a paragraph, with a line for each value. -/
def paragraph (row : HelpRow) : List String :=
  let margin := blanks 10
  let width := widest (row.values.map Prod.fst) + 1
  let values := row.values.map fun (name, purpose) =>
    margin ++ "- " ++ padded width (name ++ ":") ++ " " ++ purpose
  ["  " ++ row.name, margin ++ row.purpose] ++
    (if row.values.isEmpty then []
      else ["", margin ++ "Possible values:"] ++ values)

/-- Rows as paragraphs with an empty line between them. -/
def paragraphs (rows : List HelpRow) : List String :=
  List.intercalate [""] (rows.map paragraph)

end HelpRow

/-! ## What the rows say -/

/-- What a command does. -/
def CommandName.purpose : CommandName → String
  | .eval => "Evaluate an encoded program against a JSON subject"
  | .inspect => "Print the disassembly and metrics of an encoded program"
  | .digest => "Print the content digest of an encoded program"
  | .check => "Check that an encoded program decodes and is well formed"
  | .sample => "Write a sample encoded program to stdout"
  | .help => "Print this message or the help of the given subcommand(s)"

/-- What a sample computes. -/
def Sample.purpose : Sample → String
  | .increment => "`let x = 41 in x + 1`"
  | .diverge => "`let b = subject in if b == 0 then 0 else 100 / b`"

/-- The operand of a command. -/
def CommandName.operand : CommandName → HelpRow
  | .eval | .inspect | .digest | .check =>
    { name := "<PROGRAM>", purpose := "Encoded program file" }
  | .sample =>
    { name := "<NAME>"
      purpose := "Which sample to emit"
      values := Sample.all.map fun sample => (sample.word, sample.purpose) }
  | .help =>
    { name := "[COMMAND]...", purpose := "Print help for the subcommand(s)" }

namespace Switch

/-- What a switch does. -/
def purpose : Switch → String
  | .verbose => "Increase log verbosity (-v debug, -vv trace)"
  | .config => "JSON engine configuration file"
  | .subject => "JSON subject file (reads from stdin if not provided)"
  | .pretty => "Pretty-print JSON output"
  | .help => "Print help"
  | .version => "Print version"

/-- The names of a switch, with its value in angle brackets and dots where it
may be repeated. -/
def synopsis (switch : Switch) : String :=
  let short := match switch.short? with
    | some c => ['-', c, ',', ' ']
    | none => "    ".toList
  let value := if switch.takesValue then
    " <".toList ++ switch.long.map Char.toUpper ++ ['>'] else []
  let dots := if switch.repeats then "...".toList else []
  String.ofList (short ++ "--".toList ++ switch.long ++ value ++ dots)

end Switch

/-! ## Pages -/

namespace Place

/-- What a place is for. -/
def purpose : Place → String
  | .front => "Evaluate and inspect compiled remote expression programs"
  | .behind name => name.purpose

/-- How a place is used. -/
def usage (place : Place) : String :=
  let (name, operand) := match place with
    | .front => ([], "<COMMAND>")
    | .behind name => ([name.word], name.operand.name)
  let options := if place.known.isEmpty then [] else ["[OPTIONS]"]
  "Usage: " ++ String.intercalate " "
    ([programName] ++ name ++ options ++ [operand])

/-- The title and the rows of a place's own section. -/
def operands : Place → String × List HelpRow
  | .front =>
    ("Commands:", CommandName.all.map fun name =>
      { name := name.word, purpose := name.purpose })
  | .behind name => ("Arguments:", [name.operand])

/-- Whether the full page of a place says more than the brief one: some
operand's values are explained. -/
def hasDetails (place : Place) : Bool :=
  place.operands.2.any fun row => !row.values.isEmpty

/-- The row of a switch. The call for help tells of the other page if
there is one. -/
def switchRow (place : Place) (brief : Bool) (switch : Switch) : HelpRow :=
  let hint := match switch, place.hasDetails, brief with
    | .help, true, true => " (see more with '--help')"
    | .help, true, false => " (see a summary with '-h')"
    | _, _, _ => ""
  { name := switch.synopsis, purpose := switch.purpose ++ hint }

/-- The help page of a place, in brief or in full. -/
def helpPage (place : Place) (brief : Bool) : String :=
  let layout := if place.hasDetails && !brief then HelpRow.paragraphs
    else HelpRow.columns
  let (title, rows) := place.operands
  let options := place.known.map (place.switchRow brief)
  let lines := [place.purpose, "", place.usage, "", title] ++ layout rows ++
    (if options.isEmpty then [] else ["", "Options:"] ++ layout options)
  String.join (lines.map (· ++ "\n"))

end Place

end FieldExpr.CommandLine
