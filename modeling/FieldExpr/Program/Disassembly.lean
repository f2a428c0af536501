import FieldExpr.Program.Basic
import FieldExpr.Value.Text

/-!
# Disassembly

A program as lines of text, one for each node: the header of the node, indented
by two spaces for each level, and below it the lines of its children.
-/

namespace FieldExpr

/-- An operation's name in capital letters. -/
def capitals (name : String) : List Char :=
  name.toList.map Char.toUpper

namespace Program

/-- What the line of a node says. -/
def header : Program → List Char
  | .identity => "IDENTITY".toList
  | .lookup b => "LOOKUP ".toList ++ b.text
  | .immediate _ => "IMMEDIATE".toList
  | .defer _ => "DEFER".toList
  | .functionDef b _ _ => "FUNCTION_DEF ".toList ++ b.text
  | .literal value shape =>
    "LITERAL ".toList ++ value.text ++ " : ".toList ++ shape.name.toList
  | .pipe _ _ => "PIPE".toList
  | .equalTo tag _ _ => "EQUAL_TO : ".toList ++ tag.name.toList
  | .binaryMath op tag _ _ =>
    "MATH ".toList ++ capitals op.name ++ " : ".toList ++ tag.name.toList
  | .unaryMath op tag _ =>
    "MATH ".toList ++ capitals op.name ++ " : ".toList ++ tag.name.toList
  | .binaryLogical op _ _ => "LOGICAL ".toList ++ capitals op.name
  | .not _ => "LOGICAL NOT".toList
  | .diverge _ _ _ => "LOGICAL DIVERGE".toList
  | .tupleGetIndex _ index => "TUPLE_GET_INDEX ".toList ++ Text.natural index.toNat

/-- The line of a node, with its end. -/
def line (level : Nat) (p : Program) : List Char :=
  List.replicate (2 * level) ' ' ++ p.header ++ ['\n']

/-- The text of a disassembly. -/
def disassemblyText (p : Program) : List Char :=
  (p.nodes []).flatMap fun (position, node) => node.line position.length

/-- The disassembly of a program. -/
def disassembly (p : Program) : String :=
  String.ofList p.disassemblyText

end Program

end FieldExpr
