import FieldExpr.Program.Disassembly
import FieldExpr.Proofs.Program.Canonical
import FieldExpr.Proofs.Program.Nodes
import FieldExpr.Proofs.Text.Lines
import FieldExpr.Proofs.Value.Text

/-!
# Reading a disassembly back

A disassembly has a line for each node and one more for each line feed in a name
of a field of a literal, which the text of a value shows as it is. Without such
names its lines are those of the nodes in order, and the tree of their headers
is read back from the text (`HeaderTree.ofText?`): each line takes as its
children the trees behind it that stand deeper.
-/

namespace FieldExpr

/-! ## Trees of headers -/

/-- What a reader of a disassembly sees of a program: the header of each node,
above its children. -/
inductive HeaderTree where
  | node (header : List Char) (children : List HeaderTree)

namespace HeaderTree

/-- The level of a line, and what it says behind its indentation. -/
def split (line : List Char) : Nat × List Char :=
  ((line.takeWhile (· = ' ')).length / 2, line.dropWhile (· = ' '))

/-- A header put before the trees that follow it: those that stand deeper are
its children. -/
def attach (level : Nat) (header : List Char)
    (later : List (Nat × HeaderTree)) : List (Nat × HeaderTree) :=
  (level, .node header ((later.takeWhile (level < ·.1)).map Prod.snd)) ::
    later.dropWhile (level < ·.1)

/-- The trees that lines make, each with its level, from the last line
to the first. -/
def ofLines (lines : List (List Char)) : List (Nat × HeaderTree) :=
  (lines.map split).foldr (fun (level, header) => attach level header) []

/-- The tree whose lines these are. -/
def ofText? (text : List Char) : Option HeaderTree :=
  (Text.lines text).bind fun lines =>
    match ofLines lines with
    | [(0, tree)] => some tree
    | _ => none

/-- Trees of one level become the children of a header one level above them, and
what follows stays. -/
theorem attach_append (level : Nat) (header : List Char)
    (trees : List HeaderTree) {later : List (Nat × HeaderTree)}
    (above : ∀ entry ∈ later.head?, entry.1 ≤ level) :
    attach level header (trees.map (level + 1, ·) ++ later) =
      (level, .node header trees) :: later := by
  have deeper : ∀ entry ∈ trees.map (level + 1, ·), decide (level < entry.1) =
    true := by simp
  have stop : later.takeWhile (level < ·.1) = [] ∧
      later.dropWhile (level < ·.1) = later := by
    cases later with
    | nil => exact ⟨rfl, rfl⟩
    | cons entry rest => simp [above entry rfl]
  unfold attach
  rw [List.takeWhile_append_of_pos deeper, List.dropWhile_append_of_pos deeper,
    stop.1, stop.2, List.append_nil, List.map_map]
  simp [Function.comp_def]

end HeaderTree

namespace Program

open Text (lineFeeds)

/-- The tree of the headers of a program. -/
def headerTree : Program → HeaderTree
  | .identity => .node identity.header []
  | .lookup b => .node (lookup b).header []
  | .immediate inner => .node (immediate inner).header [inner.headerTree]
  | .defer inner => .node (defer inner).header [inner.headerTree]
  | .functionDef b body input =>
    .node (functionDef b body input).header [input.headerTree, body.headerTree]
  | .literal value shape => .node (literal value shape).header []
  | .pipe left right =>
    .node (pipe left right).header [left.headerTree, right.headerTree]
  | .equalTo tag left right =>
    .node (equalTo tag left right).header [left.headerTree, right.headerTree]
  | .binaryMath op tag left right =>
    .node (binaryMath op tag left right).header [left.headerTree, right.headerTree]
  | .unaryMath op tag operand =>
    .node (unaryMath op tag operand).header [operand.headerTree]
  | .binaryLogical op left right =>
    .node (binaryLogical op left right).header [left.headerTree, right.headerTree]
  | .not operand => .node (not operand).header [operand.headerTree]
  | .diverge condition onTrue onFalse =>
    .node (diverge condition onTrue onFalse).header
      [condition.headerTree, onTrue.headerTree, onFalse.headerTree]
  | .tupleGetIndex tuple index =>
    .node (tupleGetIndex tuple index).header [tuple.headerTree]

theorem headerTree_eq (p : Program) :
    p.headerTree = .node p.header (p.children.map headerTree) := by
  cases p <;> rfl

/-! ## Headers -/

/-- The names of the fields in the literals of a program. -/
def fieldNames (p : Program) : List String :=
  p.literals.flatMap Value.fieldNames

theorem not_mem_binding (b : Binding) : '\n' ∉ b.text := by
  simp [Binding.text, Text.not_mem_natural]

/-- Only the header of a literal can have line feeds. -/
theorem not_mem_header {p : Program} (plain : ∀ v shape, p ≠ literal v shape) :
    '\n' ∉ p.header := by
  have after {word rest : List Char} (first : '\n' ∉ word)
      (second : '\n' ∉ rest) : '\n' ∉ word ++ rest := by
    rw [List.mem_append]
    exact not_or.mpr ⟨first, second⟩
  cases p with
  | literal v shape => exact absurd rfl (plain v shape)
  | lookup b => exact after (by decide) (not_mem_binding b)
  | functionDef b body input => exact after (by decide) (not_mem_binding b)
  | tupleGetIndex tuple index => exact after (by decide) (Text.not_mem_natural _)
  | equalTo tag left right => exact after (by decide) (by cases tag <;> decide)
  | binaryMath op tag left right =>
    exact after (after (after (by decide) (by cases op <;> decide)) (by decide))
      (by cases tag <;> decide)
  | unaryMath op tag operand =>
    exact after (after (after (by decide) (by cases op; decide)) (by decide))
      (by cases tag <;> decide)
  | binaryLogical op left right => exact after (by decide) (by cases op <;> decide)
  | identity => exact (by decide : '\n' ∉ "IDENTITY".toList)
  | immediate inner => exact (by decide : '\n' ∉ "IMMEDIATE".toList)
  | defer inner => exact (by decide : '\n' ∉ "DEFER".toList)
  | pipe left right => exact (by decide : '\n' ∉ "PIPE".toList)
  | not operand => exact (by decide : '\n' ∉ "LOGICAL NOT".toList)
  | diverge condition onTrue onFalse =>
    exact (by decide : '\n' ∉ "LOGICAL DIVERGE".toList)

/-- The line feeds of a program's names are those in its header and those of
its children. -/
theorem lineFeeds_fieldNames (p : Program) :
    lineFeeds p.fieldNames =
      p.header.count '\n' +
      (p.children.map fun c => lineFeeds c.fieldNames).sum := by
  cases p with
  | literal v shape =>
    have shapes : '\n' ∉ shape.name.toList := by cases shape <;> decide
    have word : '\n' ∉ "LITERAL ".toList := by decide
    have colon : '\n' ∉ " : ".toList := by decide
    calc lineFeeds (literal v shape).fieldNames
      _ = lineFeeds v.fieldNames := by simp [fieldNames, literals]
      _ = v.text.count '\n' := v.count_text.symm
      _ = (literal v shape).header.count '\n' := by
        unfold header
        simp only [List.count_append, List.count_eq_zero.mpr shapes,
          List.count_eq_zero.mpr word, List.count_eq_zero.mpr colon]
        omega
  | identity | lookup b =>
    rw [List.count_eq_zero.mpr (not_mem_header (by simp))]; rfl
  | functionDef b body input =>
    -- The literals of the body come before those of the input, the children the
    -- other way round.
    rw [List.count_eq_zero.mpr (not_mem_header (by simp))]
    simp [fieldNames, literals, children, Nat.add_comm]
  | _ =>
    rw [List.count_eq_zero.mpr (not_mem_header (by simp))]
    simp [fieldNames, literals, children]

/-- The line feeds of a program's names are those in the headers of its nodes. -/
theorem lineFeeds_eq_count (p : Program) :
    lineFeeds p.fieldNames = (p.parts.flatMap header).count '\n' := by
  induction p using byChildren with
  | step p ih =>
    rw [parts_eq, List.flatMap_cons, List.count_append, List.flatMap_assoc,
      List.count_flatMap, lineFeeds_fieldNames]
    congr 2
    exact List.map_congr_left ih

/-- Without line feeds in names there are none in headers. -/
theorem not_mem_header_of_part {p q : Program}
    (names : lineFeeds p.fieldNames = 0) (part : q ∈ p.parts) :
    '\n' ∉ q.header := by
  rw [lineFeeds_eq_count, List.count_eq_zero] at names
  exact fun feed => names (List.mem_flatMap.mpr ⟨q, part, feed⟩)

/-- A header starts with a letter, where its indentation ends. -/
theorem exists_header_eq (p : Program) :
    ∃ first rest, p.header = first :: rest ∧ first ≠ ' ' := by
  cases p <;> exact ⟨_, _, rfl, by decide⟩

/-! ## Lines -/

/-- The line of a node without its end. -/
def indented (level : Nat) (p : Program) : List Char :=
  List.replicate (2 * level) ' ' ++ p.header

theorem split_indented (level : Nat) (p : Program) :
    HeaderTree.split (p.indented level) = (level, p.header) := by
  obtain ⟨first, rest, header, letter⟩ := p.exists_header_eq
  have spaces : ∀ c ∈ List.replicate (2 * level) ' ', decide (c = ' ') =
    true := by simp
  unfold HeaderTree.split indented
  rw [List.takeWhile_append_of_pos spaces, List.dropWhile_append_of_pos spaces,
    header]
  simp [letter]

/-- The lines of the nodes, each indented by the level at which the node stands. -/
def nodeLines (p : Program) : List (List Char) :=
  (p.nodes []).map fun (position, node) => node.indented position.length

theorem disassemblyText_eq (p : Program) :
    p.disassemblyText = p.nodeLines.flatMap (· ++ ['\n']) := by
  rw [nodeLines, List.flatMap_map]
  rfl

theorem count_line (level : Nat) (p : Program) :
    (p.line level).count '\n' = p.header.count '\n' + 1 := by
  simp [line, List.count_replicate]

/-- Each node ends a line, and line feeds in names end more. -/
theorem count_disassemblyText (p : Program) :
    p.disassemblyText.count '\n' = p.nodeCount + lineFeeds p.fieldNames := by
  have ends (entries : List (Position × Program)) :
      (entries.flatMap fun (position, node) => node.line position.length).count
        '\n' =
        entries.length + ((entries.map Prod.snd).flatMap header).count '\n' := by
    induction entries with
    | nil => rfl
    | cons entry rest ih =>
      rw [List.flatMap_cons, List.count_append, count_line, ih, List.map_cons,
        List.flatMap_cons, List.count_append, List.length_cons]
      omega
  rw [disassemblyText, ends, length_nodes, lineFeeds_eq_count, parts]

/-! ## Reading back -/

/-- The header of a node put before the trees that follow it. -/
def attachNode (entry : Position × Program) (later : List (Nat × HeaderTree)) :
    List (Nat × HeaderTree) :=
  HeaderTree.attach entry.1.length entry.2.header later

/-- The lines of the program, in front of trees that do not stand below it,
make its tree. -/
def MakesTree (p : Program) : Prop :=
  ∀ (position : Position) (later : List (Nat × HeaderTree)),
    (∀ entry ∈ later.head?, entry.1 ≤ position.length) →
    (p.nodes position).foldr attachNode later =
      (position.length, p.headerTree) :: later

/-- The lines of children, one after the other, make their trees. -/
theorem foldr_children {position : Position} {later : List (Nat × HeaderTree)}
    (above : ∀ entry ∈ later.head?, entry.1 ≤ position.length)
    {children : List Program} (made : ∀ c ∈ children, c.MakesTree) (start : Nat) :
    ((children.zipIdx start).flatMap fun (c, k) =>
      c.nodes (k :: position)).foldr attachNode later =
      (children.map headerTree).map (position.length + 1, ·) ++ later := by
  induction children generalizing start with
  | nil => rfl
  | cons c rest ih =>
    obtain ⟨here, others⟩ := List.forall_mem_cons.mp made
    rw [List.zipIdx_cons, List.flatMap_cons, List.foldr_append, ih others, here]
    · rfl
    · -- What follows are the siblings, one level below the position, or else
      -- what stands no deeper than it.
      cases rest with
      | nil => exact fun entry mem => Nat.le_succ_of_le (above entry mem)
      | cons next rest => simp

theorem makesTree (p : Program) : p.MakesTree := by
  induction p using byChildren with
  | step p ih =>
    intro position later above
    rw [nodes_eq, List.foldr_cons, foldr_children above ih, headerTree_eq]
    exact HeaderTree.attach_append position.length p.header
      (p.children.map headerTree) above

theorem ofLines_nodeLines (p : Program) :
    HeaderTree.ofLines p.nodeLines = [(0, p.headerTree)] := by
  have read := p.makesTree [] [] (by simp)
  unfold HeaderTree.ofLines nodeLines
  rw [List.map_map, List.foldr_map]
  simp only [Function.comp_apply, split_indented]
  exact read

theorem lines_disassemblyText {p : Program} (names : lineFeeds p.fieldNames = 0) :
    Text.lines p.disassemblyText = some p.nodeLines := by
  rw [disassemblyText_eq]
  refine Text.lines_flatMap fun line mem => ?_
  obtain ⟨⟨position, node⟩, entry, rfl⟩ := List.mem_map.mp mem
  have header := not_mem_header_of_part names (List.mem_map_of_mem entry)
  simp [indented, header]

/-- A disassembly has one line for each node and one more for each line feed in a
name of a field of a literal. So it has as many lines as nodes exactly when no such
name has a line feed; then its lines are those of the nodes in order, each indented
by the level of its node, and the tree of headers is read back from it. -/
theorem disassembly_lines (p : Program) :
    (∃ lines, Text.lines p.disassembly.toList = some lines ∧
      lines.length = p.nodeCount + lineFeeds p.fieldNames) ∧
      ((∃ lines, Text.lines p.disassembly.toList = some lines ∧
        lines.length = p.nodeCount) ↔
        ∀ name ∈ p.fieldNames, '\n' ∉ name.toList) ∧
      ((∀ name ∈ p.fieldNames, '\n' ∉ name.toList) →
        Text.lines p.disassembly.toList = some p.nodeLines ∧
          HeaderTree.ofText? p.disassembly.toList = some p.headerTree) := by
  have text : p.disassembly.toList = p.disassemblyText := String.toList_ofList
  obtain ⟨lines, split⟩ := Text.exists_lines_flatMap p.nodeLines
  rw [← disassemblyText_eq] at split
  have count : lines.length = p.nodeCount + lineFeeds p.fieldNames := by
    rw [Text.length_of_lines split, count_disassemblyText]
  rw [text]
  refine ⟨⟨lines, split, count⟩, ⟨?_, ?_⟩, ?_⟩
  · rintro ⟨found, same, nodes⟩
    rw [split] at same
    cases same
    exact Text.lineFeeds_eq_zero_iff.mp (by omega)
  · intro unbroken
    have none := Text.lineFeeds_eq_zero_iff.mpr unbroken
    exact ⟨lines, split, by omega⟩
  · intro unbroken
    have own := lines_disassemblyText (Text.lineFeeds_eq_zero_iff.mpr unbroken)
    refine ⟨own, ?_⟩
    rw [HeaderTree.ofText?, own, Option.bind_some, ofLines_nodeLines]
    rfl

/-- A string with a line feed, and a record. -/
def quotedFeed : Program :=
  defer (pipe (literal (.string "a\nb") .string)
    (literal (.record [("a", .integer 1)]) .any))

/-- The line feed of a string does not break a line. -/
theorem disassembly_lines_quotedFeed :
    (∀ name ∈ quotedFeed.fieldNames, '\n' ∉ name.toList) ∧
      Text.lines quotedFeed.disassembly.toList =
        some ["DEFER".toList, "  PIPE".toList,
          "    LITERAL \"a\\nb\" : string".toList,
          "    LITERAL \x7ba: 1\x7d : any".toList] := by
  have names : ∀ name ∈ quotedFeed.fieldNames, '\n' ∉ name.toList := by decide
  refine ⟨names, ?_⟩
  rw [(disassembly_lines quotedFeed).2.2 names |>.1]
  decide

/-- A record with a line feed in the name of its field. -/
def brokenName : Program :=
  literal (.record [("a\nb", .integer 1)]) .any

/-- One node on two lines. -/
theorem lines_brokenName :
    brokenName.nodeCount = 1 ∧
      Text.lines brokenName.disassembly.toList =
        some ["LITERAL \x7ba".toList, "b: 1\x7d : any".toList] := by
  have text : brokenName.disassembly.toList = brokenName.disassemblyText :=
    String.toList_ofList
  rw [text]
  decide

end Program

end FieldExpr
