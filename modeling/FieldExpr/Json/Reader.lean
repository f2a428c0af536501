import FieldExpr.Json.Basic
import FieldExpr.Text.Hex

/-!
# Reading JSON

A reader that takes one byte at a time. Its state is the stack of containers
that are open and what it expects next, so the first problem from the left
decides the outcome, reading ends after as many steps as there are bytes, and
the nesting of the text is the height of the stack.

`read` stops behind the first complete document and gives back the bytes it left;
`parse` wants nothing but blanks there. A value that is going to be dropped can be
skimmed: its numbers and strings are then checked for their shape only.
-/

namespace FieldExpr.Json

/-- Why a text is not a document. -/
inductive ReadError where
  /-- The text ended where more was needed. -/
  | endOfInput
  /-- A byte that cannot stand where it does, or a string or number that
  stands for nothing. -/
  | malformed
  deriving DecidableEq

/-- How to read. -/
structure ReadOptions where
  /-- The most containers that may be open at once, if there is a limit. -/
  maxOpen : Option Nat := none
  /-- The document is going to be dropped. -/
  skim : Bool := false

/-- A container that is still open. -/
inductive Container where
  /-- The items read so far, the latest first. -/
  | array (items : List Json)
  /-- The entries read so far, and the key of the one that is being read. -/
  | object (entries : List (String × Json)) (key : String)

/-- Where a string stands. -/
inductive StringPhase where
  | plain
  /-- After a backslash. -/
  | escape
  /-- Inside the four digits of a code unit. The first half of a surrogate pair
  may be waiting. -/
  | unit (half : Option Nat) (digits : List UInt8)
  /-- After the first half of a pair: a backslash has to follow. -/
  | pairEscape (half : Nat)
  /-- After that backslash: a code unit has to follow. -/
  | pairUnit (half : Nat)

/-- Where a number stands. -/
inductive NumberPhase where
  /-- After the minus sign. -/
  | sign
  /-- After a leading zero. -/
  | zero
  /-- Inside the whole part. -/
  | whole
  /-- After the point. -/
  | point
  /-- Inside the fraction. -/
  | fraction
  /-- After the exponent mark. -/
  | mark
  /-- After the sign of the exponent. -/
  | markSign
  /-- Inside the exponent. -/
  | exponent
  deriving DecidableEq

/-- What the reader expects. -/
inductive Expected where
  /-- A value; right after an opening bracket also the closing one. -/
  | value (first : Bool)
  /-- A key; right after an opening brace also the closing one. -/
  | key (first : Bool)
  /-- The colon behind a key. -/
  | colon (key : String)
  /-- A comma or the end of the container. -/
  | separator
  /-- More of a string, which is a key or a value; its bytes so far, the
  latest first. -/
  | string (isKey : Bool) (phase : StringPhase) (bytes : List UInt8)
  /-- The remaining letters of a literal name. -/
  | word (letters : List UInt8) (value : Json)
  /-- More of a number, whose digits are collected the latest first. -/
  | number (phase : NumberPhase) (numeral : Numeral)

/-- The state of the reader. -/
structure State where
  expected : Expected
  containers : List Container

/-- What one byte leads to. -/
inductive Step where
  | more (state : State)
  /-- The document is complete; the byte belongs to it or not. -/
  | done (value : Json) (consumed : Bool)
  | malformed

/-- The blanks between tokens. -/
def isBlank (b : UInt8) : Bool :=
  b == 0x20 || b == 0x0a || b == 0x09 || b == 0x0d

/-- The value of an ASCII digit. -/
def digitOf? (b : UInt8) : Option Nat :=
  if 0x30 ≤ b ∧ b ≤ 0x39 then some (b.toNat - 0x30) else none

/-! ## Values and containers -/

/-- A complete value goes to the innermost open container; without one it is
the document. -/
def deliver (value : Json) : List Container → Step
  | [] => .done value true
  | .array items :: rest => .more ⟨.separator, .array (value :: items) :: rest⟩
  | .object entries key :: rest =>
    .more ⟨.separator, .object (insert key value entries) key :: rest⟩

/-- Open one more container, unless that is one too many. -/
def openContainer (options : ReadOptions) (container : Container)
    (expected : Expected) (stack : List Container) : Step :=
  match options.maxOpen with
  | some limit =>
    if limit ≤ stack.length then .malformed
      else .more ⟨expected, container :: stack⟩
  | none => .more ⟨expected, container :: stack⟩

/-- Close the innermost container with a bracket. -/
def closeArray : List Container → Step
  | .array items :: rest => deliver (.array items.reverse) rest
  | _ => .malformed

/-- Close the innermost container with a brace. -/
def closeObject : List Container → Step
  | .object entries _ :: rest => deliver (.object entries) rest
  | _ => .malformed

/-- The first byte of a value. -/
def startValue (options : ReadOptions) (first : Bool) (stack : List Container)
    (b : UInt8) : Step :=
  if isBlank b then .more ⟨.value first, stack⟩
  else if b = 0x22 then .more ⟨.string false .plain [], stack⟩
  else if b = 0x7b then openContainer options (.object [] "") (.key true) stack
  else if b = 0x5b then openContainer options (.array []) (.value true) stack
  else if b = 0x5d ∧ first then closeArray stack
  else if b = 0x6e then .more ⟨.word "ull".toUTF8.data.toList .null, stack⟩
  else if b = 0x74 then
    .more ⟨.word "rue".toUTF8.data.toList (.boolean true), stack⟩
  else if b = 0x66 then
    .more ⟨.word "alse".toUTF8.data.toList (.boolean false), stack⟩
  else if b = 0x2d then .more ⟨.number .sign { negative := true }, stack⟩
  else match digitOf? b with
    | some 0 => .more ⟨.number .zero { whole := [0] }, stack⟩
    | some digit => .more ⟨.number .whole { whole := [digit] }, stack⟩
    | none => .malformed

/-- A byte between tokens where a key may start. -/
def startKey (first : Bool) (stack : List Container) (b : UInt8) : Step :=
  if isBlank b then .more ⟨.key first, stack⟩
  else if b = 0x22 then .more ⟨.string true .plain [], stack⟩
  else if b = 0x7d ∧ first then closeObject stack
  else .malformed

/-- A byte between a key and its value. -/
def afterKey (key : String) (stack : List Container) (b : UInt8) : Step :=
  if isBlank b then .more ⟨.colon key, stack⟩
  else if b = 0x3a then
    match stack with
    | .object entries _ :: rest => .more ⟨.value false, .object entries key :: rest⟩
    | _ => .malformed
  else .malformed

/-- A byte behind a value inside a container. -/
def afterValue (stack : List Container) (b : UInt8) : Step :=
  if isBlank b then .more ⟨.separator, stack⟩
  else if b = 0x2c then
    match stack with
    | .array _ :: _ => .more ⟨.value false, stack⟩
    | .object _ _ :: _ => .more ⟨.key false, stack⟩
    | [] => .malformed
  else if b = 0x5d then closeArray stack
  else if b = 0x7d then closeObject stack
  else .malformed

/-! ## Strings -/

/-- The string of collected bytes, the latest first. A skimmed string is
not looked at. -/
def stringOf? (options : ReadOptions) (bytes : List UInt8) : Option String :=
  if options.skim then some "" else String.fromUTF8? ⟨bytes.reverse.toArray⟩

/-- The closing quote of a key or of a value. -/
def endString (options : ReadOptions) (isKey : Bool) (bytes : List UInt8)
    (stack : List Container) : Step :=
  match stringOf? options bytes with
  | none => .malformed
  | some s => if isKey then .more ⟨.colon s, stack⟩ else deliver (.string s) stack

/-- The byte that a short escape stands for. -/
def shortEscape? (b : UInt8) : Option UInt8 :=
  if b = 0x22 ∨ b = 0x5c ∨ b = 0x2f then some b
  else if b = 0x62 then some 0x08
  else if b = 0x66 then some 0x0c
  else if b = 0x6e then some 0x0a
  else if b = 0x72 then some 0x0d
  else if b = 0x74 then some 0x09
  else none

/-- The value of four hexadecimal digits. -/
def codeUnit? (digits : List UInt8) : Option Nat :=
  digits.foldlM (fun value b => (Text.hexDigit? b).map (16 * value + ·)) 0

/-- The bytes of a code point, the latest first, in front of those before it. -/
def pushCodePoint (code : Nat) (bytes : List UInt8) : List UInt8 :=
  (String.utf8EncodeChar (Char.ofNat code)).reverse ++ bytes

/-- The string after a complete code unit: halves of a pair have to meet in
the right order. -/
def takeUnit (half : Option Nat) (unit : Nat) (bytes : List UInt8) :
    Option (StringPhase × List UInt8) :=
  match half with
  | none =>
    if 0xdc00 ≤ unit ∧ unit ≤ 0xdfff then none
    else if 0xd800 ≤ unit ∧ unit ≤ 0xdbff then some (.pairEscape unit, bytes)
    else some (.plain, pushCodePoint unit bytes)
  | some half =>
    -- Each half carries ten bits of what is above the first 65536 code points.
    if 0xdc00 ≤ unit ∧ unit ≤ 0xdfff then
      some
        (.plain, pushCodePoint (0x10000 + (half - 0xd800) * 0x400 +
          (unit - 0xdc00)) bytes)
    else none

/-- One byte inside a string. -/
def inString (options : ReadOptions) (isKey : Bool) (phase : StringPhase)
    (bytes : List UInt8) (stack : List Container) (b : UInt8) : Step :=
  let more := fun phase bytes => Step.more ⟨.string isKey phase bytes, stack⟩
  match phase with
  | .plain =>
    if b = 0x22 then endString options isKey bytes stack
    else if b = 0x5c then more .escape bytes
    else if b < 0x20 then .malformed
    else more .plain (b :: bytes)
  | .escape =>
    if b = 0x75 then more (.unit none []) bytes
    else match shortEscape? b with
      | some byte => more .plain (byte :: bytes)
      | none => .malformed
  | .unit half digits =>
    -- The digits are looked at all at once, with the last of them.
    if digits.length < 3 then more (.unit half (digits ++ [b])) bytes
    else match codeUnit? (digits ++ [b]) with
      | none => .malformed
      | some unit =>
        if options.skim then more .plain bytes
        else match takeUnit half unit bytes with
          | some (phase, bytes) => more phase bytes
          | none => .malformed
  | .pairEscape half => if b = 0x5c then more (.pairUnit half) bytes else .malformed
  | .pairUnit half =>
    if b = 0x75 then more (.unit (some half) []) bytes else .malformed

/-! ## Numbers -/

/-- A number may end in this phase. -/
def NumberPhase.complete : NumberPhase → Bool
  | .zero | .whole | .fraction | .exponent => true
  | _ => false

/-- The number of collected digits, the latest first. A skimmed number is
not looked at. -/
def numberOf? (options : ReadOptions) (n : Numeral) : Option Number :=
  if options.skim then some (.double (.zero false))
  else
    Numeral.number?
      { n with
        whole := n.whole.reverse, fraction := n.fraction.reverse,
        exponent := n.exponent.reverse }

/-- One byte that a number can take; `none` when it belongs to what follows. -/
def takeByte (phase : NumberPhase) (n : Numeral) (b : UInt8) :
    Option (NumberPhase × Numeral) :=
  match phase, digitOf? b with
  | .sign, some 0 => some (.zero, { n with whole := [0] })
  | .sign, some digit => some (.whole, { n with whole := [digit] })
  | .whole, some digit => some (.whole, { n with whole := digit :: n.whole })
  | .point, some digit | .fraction, some digit =>
    some (.fraction, { n with fraction := digit :: n.fraction })
  | .mark, some digit | .markSign, some digit | .exponent, some digit =>
    some (.exponent, { n with exponent := digit :: n.exponent })
  | .zero, none | .whole, none =>
    if b = 0x2e then some (.point, n)
    else if b = 0x65 ∨ b = 0x45 then some (.mark, n)
    else none
  | .fraction, none => if b = 0x65 ∨ b = 0x45 then some (.mark, n) else none
  | .mark, none =>
    if b = 0x2b then some (.markSign, n)
    else if b = 0x2d then some (.markSign, { n with exponentNegative := true })
    else none
  | _, _ => none

/-- One byte inside or behind a number. -/
def inNumber (options : ReadOptions) (phase : NumberPhase) (n : Numeral)
    (stack : List Container) (b : UInt8) : Step :=
  match takeByte phase n b with
  | some (phase, n) => .more ⟨.number phase n, stack⟩
  | none =>
    if !phase.complete || (phase == .zero && (digitOf? b).isSome) then .malformed
    else match numberOf? options n with
      | none => .malformed
      | some parsed =>
        -- The byte is not the number's, so it is read again in the state
        -- behind the value.
        match deliver (.number parsed) stack with
        | .done value _ => .done value false
        | .more state => afterValue state.containers b
        | .malformed => .malformed

/-! ## The reader -/

/-- The state after one more byte. -/
def State.step (options : ReadOptions) (s : State) (b : UInt8) : Step :=
  match s.expected with
  | .value first => startValue options first s.containers b
  | .key first => startKey first s.containers b
  | .colon key => afterKey key s.containers b
  | .separator => afterValue s.containers b
  | .string isKey phase bytes => inString options isKey phase bytes s.containers b
  | .word letters value =>
    match letters with
    | [] => .malformed
    | [letter] => if b = letter then deliver value s.containers else .malformed
    | letter :: letters =>
      if b = letter then .more ⟨.word letters value, s.containers⟩ else .malformed
  | .number phase n => inNumber options phase n s.containers b

/-- The outcome at the end of the text: only a number can end there. -/
def State.finish (options : ReadOptions) (s : State) : Except ReadError Json :=
  match s.expected with
  | .number phase n =>
    if phase.complete then
      match numberOf? options n, s.containers with
      | none, _ => .error .malformed
      | some parsed, [] => .ok (.number parsed)
      | some _, _ => .error .endOfInput
    else .error (if options.skim then .malformed else .endOfInput)
  | _ => .error .endOfInput

/-- Read on from a state, up to the end of the document. -/
def readFrom (options : ReadOptions) (s : State) :
    List UInt8 → Except ReadError (Json × List UInt8)
  | [] => do return (← s.finish options, [])
  | b :: rest =>
    match s.step options b with
    | .more s => readFrom options s rest
    | .done value consumed => .ok (value, if consumed then rest else b :: rest)
    | .malformed => .error .malformed

/-- The state before the first byte. -/
def State.start : State :=
  ⟨.value false, []⟩

/-- The document at the start of a text, and the bytes behind it. -/
def read (options : ReadOptions) (bytes : List UInt8) :
    Except ReadError (Json × List UInt8) :=
  readFrom options .start bytes

/-- The document that a text is, with blanks around it. -/
def parse (options : ReadOptions) (bytes : List UInt8) : Except ReadError Json := do
  let (value, rest) ← read options bytes
  if rest.all isBlank then return value else .error .malformed

/-- The number that a text is, without blanks. -/
def Number.ofText? (text : List Char) : Option Number :=
  match read {} (text.flatMap String.utf8EncodeChar) with
  | .ok (.number n, []) => some n
  | _ => none

end FieldExpr.Json
