import FieldExpr.Json.Reader
import FieldExpr.Json.Writer
import FieldExpr.Proofs.Json.Order
import FieldExpr.Proofs.Text.Utf8

/-!
# Reading the text of a document

The reader takes the compact text of a normal document back to it: a document
whose numbers are integers and whose objects have ascending keys. Reading is a
run of a state machine, and the text of a document inside others takes the
machine from the state that expects a value to the one in which the value has
been delivered to the containers that are open (`read_write`). Written texts of
different normal documents are different.
-/

namespace FieldExpr.Json

open Text (utf8 spelled digits continued)

/-! ## Normal documents -/

/-- A whole number. -/
def Number.IsInteger : Number → Prop
  | .integer _ _ _ => True
  | .double _ => False

mutual

/-- Every number is an integer, and every object has ascending keys. -/
def Normal : Json → Prop
  | .number n => n.IsInteger
  | .array items => NormalItems items
  | .object entries => Ascending entries ∧ NormalEntries entries
  | _ => True

/-- `Normal` for every item. -/
def NormalItems : List Json → Prop
  | [] => True
  | item :: rest => item.Normal ∧ NormalItems rest

/-- `Normal` for the value of every entry. -/
def NormalEntries : List (String × Json) → Prop
  | [] => True
  | (_, value) :: rest => value.Normal ∧ NormalEntries rest

end

/-! ## Steps -/

/-- What comes of a step when these bytes follow. -/
def Step.settle : Step → List UInt8 → Except ReadError (Json × List UInt8)
  | .more state, bytes => readFrom {} state bytes
  | .done value _, bytes => .ok (value, bytes)
  | .malformed, _ => .error .malformed

variable {stack : List Container} {rest : List Char}

/-- A byte that a state takes. -/
theorem readFrom_more {state next : State} {b : UInt8} {bytes : List UInt8}
    (step : state.step {} b = .more next) :
    readFrom {} state (b :: bytes) = readFrom {} next bytes := by
  rw [readFrom, step]

/-- A byte that completes a value. -/
theorem readFrom_deliver {state : State} {b : UInt8} {bytes : List UInt8}
    {value : Json} (step : state.step {} b = deliver value stack) :
    readFrom {} state (b :: bytes) = (deliver value stack).settle bytes := by
  rw [readFrom, step]
  cases stack with
  | nil => rfl
  | cons container stack => cases container <;> rfl

/-! ## Strings -/

/-- A byte that a string takes as it is. -/
def PlainByte (b : UInt8) : Prop :=
  b ≠ 0x22 ∧ b ≠ 0x5c ∧ ¬ b < 0x20

theorem readFrom_plain {isKey : Bool} {before bytes tail : List UInt8}
    (plain : ∀ b ∈ bytes, PlainByte b) :
    readFrom {} ⟨.string isKey .plain before, stack⟩ (bytes ++ tail) =
      readFrom {} ⟨.string isKey .plain (bytes.reverse ++ before), stack⟩ tail := by
  induction bytes generalizing before with
  | nil => rfl
  | cons b bytes ih =>
    obtain ⟨quote, backslash, control⟩ := plain b List.mem_cons_self
    have step : State.step {} ⟨.string isKey .plain before, stack⟩ b =
        .more ⟨.string isKey .plain (b :: before), stack⟩ := by
      show (if b = 0x22 then _ else if b = 0x5c then _ else if b < 0x20 then _
        else _) = _
      rw [if_neg quote, if_neg backslash, if_neg control]
    rw [List.cons_append, readFrom_more step,
      ih fun b mem => plain b (List.mem_cons_of_mem _ mem),
      List.reverse_cons, List.append_assoc]
    rfl

/-- The bytes of a character that is not escaped. -/
theorem plainByte_of_mem {c : Char} (quote : c ≠ '"') (backslash : c ≠ '\\')
    (control : ¬ c.toNat < 0x20) {b : UInt8}
    (mem : b ∈ String.utf8EncodeChar c) : PlainByte b := by
  by_cases small : c.toNat < 128
  · rw [Text.utf8EncodeChar_of_lt small] at mem
    have value : b.toNat = c.toNat := by
      rw [List.mem_singleton.mp mem]
      exact Text.toNat_ofNat_byte (by omega)
    refine ⟨?_, ?_, ?_⟩
    · rintro rfl
      exact quote (Char.toNat_inj.mp value.symm)
    · rintro rfl
      exact backslash (Char.toNat_inj.mp value.symm)
    · rw [UInt8.lt_iff_toNat_lt, value]
      exact control
  · have large := Text.le_of_mem_utf8EncodeChar (by omega) mem
    refine ⟨?_, ?_, ?_⟩
    · rintro rfl
      exact absurd large (by decide)
    · rintro rfl
      exact absurd large (by decide)
    · rw [UInt8.lt_iff_toNat_lt]
      exact Nat.not_lt.mpr (Nat.le_trans (by decide) large)

/-- The lower hexadecimal digits, as bytes. -/
theorem hexDigit?_digitChar {x : Nat} (lt : x < 16) :
    String.utf8EncodeChar (Nat.digitChar x) =
      [UInt8.ofNat (Nat.digitChar x).toNat] ∧
      Text.hexDigit? (UInt8.ofNat (Nat.digitChar x).toNat) = some x := by
  have table : ∀ x < 16, String.utf8EncodeChar (Nat.digitChar x) =
      [UInt8.ofNat (Nat.digitChar x).toNat] ∧
      Text.hexDigit? (UInt8.ofNat (Nat.digitChar x).toNat) = some x := by decide
  exact table x lt

/-- Four digits of a control character stand for it. -/
theorem readFrom_unit {isKey : Bool} {before tail : List UInt8} {c : Char}
    (control : c.toNat < 0x20) :
    readFrom {} ⟨.string isKey .plain before, stack⟩
        (0x5c :: 0x75 :: 0x30 :: 0x30 ::
          UInt8.ofNat (Nat.digitChar (c.toNat / 16)).toNat ::
          UInt8.ofNat (Nat.digitChar (c.toNat % 16)).toNat :: tail) =
      readFrom {}
        ⟨.string isKey .plain ((String.utf8EncodeChar c).reverse ++ before),
        stack⟩ tail := by
  generalize high : UInt8.ofNat (Nat.digitChar (c.toNat / 16)).toNat = h
  generalize low : UInt8.ofNat (Nat.digitChar (c.toNat % 16)).toNat = l
  have high := high ▸ (hexDigit?_digitChar (x := c.toNat / 16) (by omega)).2
  have low := low ▸ (hexDigit?_digitChar (x := c.toNat % 16) (by omega)).2
  have digits : codeUnit? ([0x30, 0x30, h] ++ [l]) = some c.toNat := by
    show ((Text.hexDigit? h).map (16 * 0 + ·)).bind
      (fun value => ((Text.hexDigit? l).map (16 * value + ·)).bind some) = _
    rw [high, low]
    show some (16 * (16 * 0 + c.toNat / 16) + c.toNat % 16) = _
    congr 1
    omega
  have unit : takeUnit none c.toNat before =
      some (.plain, (String.utf8EncodeChar c).reverse ++ before) := by
    unfold takeUnit
    rw [if_neg (by omega), if_neg (by omega)]
    unfold pushCodePoint
    rw [Char.ofNat_toNat]
  have step : State.step {} ⟨.string isKey (.unit none [0x30, 0x30, h]) before,
        stack⟩ l =
      .more ⟨.string isKey .plain ((String.utf8EncodeChar c).reverse ++ before),
        stack⟩ := by
    show inString {} isKey (.unit none [0x30, 0x30, h]) before stack l = _
    unfold inString
    dsimp only
    rw [if_neg (by simp), digits]
    dsimp only
    rw [if_neg (by simp), unit]
  show readFrom {} ⟨.string isKey (.unit none [0x30, 0x30, h]) before, stack⟩
    (l :: tail) = _
  exact readFrom_more step

/-- The escape of a character stands for its bytes. -/
theorem readFrom_escapeChar {isKey : Bool} {before tail : List UInt8} (c : Char) :
    readFrom {} ⟨.string isKey .plain before, stack⟩ (utf8 (escapeChar c) ++ tail) =
      readFrom {}
        ⟨.string isKey .plain ((String.utf8EncodeChar c).reverse ++ before),
        stack⟩ tail := by
  unfold escapeChar
  split
  · rfl
  · rfl
  · rfl
  · rfl
  · rfl
  · rfl
  · rfl
  · rename_i quote backslash _ _ _ _ _
    split
    · rename_i control
      have high := (hexDigit?_digitChar (x := c.toNat / 16) (by omega)).1
      have low := (hexDigit?_digitChar (x := c.toNat % 16) (by omega)).1
      rw [← readFrom_unit control]
      simp only [utf8, List.flatMap_cons, List.flatMap_nil, high, low,
        List.append_nil]
      rfl
    · rename_i control
      rw [Text.utf8_cons, Text.utf8_nil, List.append_nil]
      exact readFrom_plain fun b mem => plainByte_of_mem quote backslash control mem

/-- Written characters stand for their bytes. -/
theorem readFrom_writeChars {isKey : Bool} {before : List UInt8}
    (chars rest : List Char) :
    readFrom {} ⟨.string isKey .plain before, stack⟩
      (utf8 (writeChars chars rest)) =
      readFrom {} ⟨.string isKey .plain ((utf8 chars).reverse ++ before), stack⟩
        (utf8 rest) := by
  induction chars generalizing before with
  | nil => rfl
  | cons c chars ih =>
    rw [writeChars, Text.utf8_append, readFrom_escapeChar, ih, Text.utf8_cons,
      List.reverse_append, List.append_assoc]

theorem stringOf?_utf8 (s : String) :
    stringOf? {} (utf8 s.toList).reverse = some s := by
  show String.fromUTF8? ⟨(utf8 s.toList).reverse.reverse.toArray⟩ = _
  rw [List.reverse_reverse]
  exact Text.fromUTF8?_utf8 s

/-- A written string, up to its closing quote. -/
theorem readFrom_closeString {isKey : Bool} (s : String) (rest : List Char) :
    readFrom {} ⟨.string isKey .plain [], stack⟩
      (utf8 (writeChars s.toList ('"' :: rest))) =
      (if isKey then Step.more ⟨.colon s, stack⟩
        else deliver (.string s) stack).settle (utf8 rest) := by
  have step : State.step {} ⟨.string isKey .plain (utf8 s.toList).reverse,
        stack⟩ 0x22 =
      if isKey then Step.more ⟨.colon s, stack⟩ else deliver (.string s) stack := by
    show endString {} isKey (utf8 s.toList).reverse stack = _
    unfold endString
    rw [stringOf?_utf8]
  rw [readFrom_writeChars, List.append_nil]
  show readFrom {} _ (0x22 :: utf8 rest) = _
  cases isKey with
  | true => exact readFrom_more step
  | false => exact readFrom_deliver step

/-! ## Numbers -/

/-- What follows a number: nothing, or a delimiter. -/
def Stops (rest : List Char) : Prop :=
  ∀ c tail, rest = c :: tail → c = ',' ∨ c = ']' ∨ c = '\x7d'

theorem stops_cons {c : Char} {tail : List Char}
    (delimiter : c = ',' ∨ c = ']' ∨ c = '\x7d') :
    Stops (c :: tail) := by
  intro c' tail' same
  cases same
  exact delimiter

theorem foldl_takeWhole {row : List Nat} {value : Nat}
    (fits : continued value row < 0x10000000000000000) :
    row.foldl Significand.takeWhole ⟨value, 0, false⟩ =
      ⟨continued value row, 0, false⟩ := by
  induction row generalizing value with
  | nil => rfl
  | cons d row ih =>
    have small : 10 * value + d < 0x10000000000000000 :=
      Nat.lt_of_le_of_lt (Text.le_continued (10 * value + d) row) fits
    have step : Significand.takeWhole ⟨value, 0, false⟩ d =
        ⟨10 * value + d, 0, false⟩ := by
      unfold Significand.takeWhole
      rw [if_neg (by simp only [Bool.false_eq_true, false_or]; omega)]
    rw [List.foldl_cons, step, ih fits]
    rfl

/-- A numeral of whole digits stands for an integer, if it has one. -/
theorem numberOf?_whole (negative : Bool) {row : List Nat}
    (fits : continued 0 row < 0x10000000000000000) :
    numberOf? {} { negative, whole := row.reverse } =
      wholeNumber? negative (continued 0 row) := by
  show Numeral.number? { negative, whole := row.reverse.reverse } = _
  rw [List.reverse_reverse]
  unfold Numeral.number?
  dsimp only
  rw [foldl_takeWhole fits]
  rfl

theorem digitOf?_digit {d : Nat} (lt : d < 10) :
    digitOf? (UInt8.ofNat (48 + d)) = some d := by
  have table : ∀ d < 10, digitOf? (UInt8.ofNat (48 + d)) = some d := by decide
  exact table d lt

/-- More digits of a whole part. -/
theorem readFrom_digits {row : List Nat} (digit : ∀ d ∈ row, d < 10)
    {negative : Bool} {whole : List Nat} (rest : List Char) :
    readFrom {} ⟨.number .whole { negative, whole }, stack⟩
      (utf8 (spelled row ++ rest)) =
      readFrom {} ⟨.number .whole { negative, whole := row.reverse ++ whole },
        stack⟩ (utf8 rest) := by
  induction row generalizing whole with
  | nil => rfl
  | cons d row ih =>
    have lt := digit d List.mem_cons_self
    have step : State.step {} ⟨.number .whole { negative, whole }, stack⟩
        (UInt8.ofNat (48 + d)) =
        .more ⟨.number .whole { negative, whole := d :: whole }, stack⟩ := by
      show inNumber {} .whole { negative, whole } stack (UInt8.ofNat (48 + d)) = _
      unfold inNumber takeByte
      rw [digitOf?_digit lt]
    show readFrom {} _ (utf8 (Nat.digitChar d :: (spelled row ++ rest))) = _
    rw [Text.utf8_cons, Text.utf8EncodeChar_digitChar lt, List.singleton_append,
      readFrom_more step, ih fun d mem => digit d (List.mem_cons_of_mem _ mem),
      List.reverse_cons, List.append_assoc]
    rfl

/-- The end of a number, which the next byte or the end of the text shows. -/
theorem readFrom_endNumber {phase : NumberPhase}
    (whole : phase = .zero ∨ phase = .whole) {n : Numeral}
    {parsed : Number} (number : numberOf? {} n = some parsed) (stops : Stops rest) :
    readFrom {} ⟨.number phase n, stack⟩ (utf8 rest) =
      (deliver (.number parsed) stack).settle (utf8 rest) := by
  have complete : phase.complete = true := by
    rcases whole with rfl | rfl <;> rfl
  cases rest with
  | nil =>
    show (do return (← State.finish {} ⟨.number phase n, stack⟩, [])) = _
    unfold State.finish
    dsimp only
    rw [if_pos complete, number]
    cases stack with
    | nil => rfl
    | cons container stack => cases container <;> rfl
  | cons c tail =>
    -- The delimiter shows that the number has ended, and is then read in the
    -- state after the number.
    obtain ⟨b, byte, other⟩ : ∃ b, String.utf8EncodeChar c = [b] ∧
        takeByte phase n b = none ∧
        digitOf? b = none := by
      rcases whole with rfl | rfl
        <;> rcases stops c tail rfl with rfl | rfl | rfl <;>
        exact ⟨_, rfl, rfl, rfl⟩
    have step : State.step {} ⟨.number phase n, stack⟩ b =
      inNumber {} phase n stack b := rfl
    rw [Text.utf8_cons, byte, List.singleton_append, readFrom, step]
    unfold inNumber
    rw [other.1]
    dsimp only
    rw [complete, other.2, number, if_neg (by simp)]
    cases stack with
    | nil => rfl
    | cons container stack =>
      cases container with
      | array items =>
        show _ = readFrom {} ⟨.separator, _⟩ _
        rw [readFrom]
        rfl
      | object entries key =>
        show _ = readFrom {} ⟨.separator, _⟩ _
        rw [readFrom]
        rfl

/-- The digits of a number above zero, from the first one on. -/
theorem readFrom_wholePart {state : State} {negative : Bool} {n : Nat} (pos : 0 < n)
    (first : ∀ d, 0 < d → d < 10 →
      state.step {} (UInt8.ofNat (48 + d)) =
        .more ⟨.number .whole { negative, whole := [d] }, stack⟩) (rest :
      List Char) :
    readFrom {} state (utf8 (Text.natural n ++ rest)) =
      readFrom {} ⟨.number .whole { negative, whole := (digits n).reverse },
        stack⟩ (utf8 rest) := by
  obtain ⟨d, row, front, positive, lt⟩ := Text.head_digits pos
  have digit : ∀ d ∈ row, d < 10 := by
    intro d mem
    exact Text.lt_of_mem_digits (n := n) (front ▸ List.mem_cons_of_mem _ mem)
  rw [Text.natural_eq, front]
  show readFrom {} _ (utf8 (Nat.digitChar d :: (spelled row ++ rest))) = _
  rw [Text.utf8_cons, Text.utf8EncodeChar_digitChar lt, List.singleton_append,
    readFrom_more (first d positive lt), readFrom_digits digit, List.reverse_cons]

/-- The text of a number above zero, from its first digit on. -/
theorem readFrom_natural {state : State} {negative : Bool} {n : Nat} (pos : 0 < n)
    (fits : n < 0x10000000000000000)
    (first : ∀ d, 0 < d → d < 10 →
      state.step {} (UInt8.ofNat (48 + d)) =
        .more ⟨.number .whole { negative, whole := [d] }, stack⟩)
    {parsed : Number} (number : wholeNumber? negative n = some parsed)
    (stops : Stops rest) :
    readFrom {} state (utf8 (Text.natural n ++ rest)) =
      (deliver (.number parsed) stack).settle (utf8 rest) := by
  have value : continued 0 (digits n) = n := Text.continued_digits n
  have numeral : numberOf? {} { negative, whole := (digits n).reverse } =
      some parsed := by
    rw [numberOf?_whole negative (by rw [value]; exact fits), value, number]
  rw [readFrom_wholePart pos first, readFrom_endNumber (.inr rfl) numeral stops]

theorem positive_digit {d : Nat} (pos : 0 < d) (lt : d < 10) :
    d = 1 ∨ d = 2 ∨ d = 3 ∨ d = 4 ∨ d = 5 ∨ d = 6 ∨ d = 7 ∨ d = 8 ∨ d = 9 := by
  omega

/-- A digit above zero starts a number. -/
theorem step_value_digit (first : Bool) {d : Nat} (pos : 0 < d) (lt : d < 10) :
    State.step {} ⟨.value first, stack⟩ (UInt8.ofNat (48 + d)) =
      .more ⟨.number .whole { negative := false, whole := [d] }, stack⟩ := by
  rcases positive_digit pos lt with
    rfl | rfl | rfl | rfl | rfl | rfl | rfl | rfl | rfl <;> rfl

/-- A digit above zero goes on behind a minus sign. -/
theorem step_sign_digit {d : Nat} (pos : 0 < d) (lt : d < 10) :
    State.step {} ⟨.number .sign { negative := true }, stack⟩
      (UInt8.ofNat (48 + d)) =
      .more ⟨.number .whole { negative := true, whole := [d] }, stack⟩ := by
  rcases positive_digit pos lt with
    rfl | rfl | rfl | rfl | rfl | rfl | rfl | rfl | rfl <;> rfl

/-- The text of an integer stands for it. -/
theorem readFrom_integer (first : Bool) {n : Int}
    (low : -0x8000000000000000 ≤ n) (high : n < 0x10000000000000000)
    (stops : Stops rest) :
    readFrom {} ⟨.value first, stack⟩ (utf8 (Text.integer n ++ rest)) =
      (deliver (.number (.integer n low high)) stack).settle (utf8 rest) := by
  unfold Text.integer
  split
  · rename_i negative
    have number : wholeNumber? true n.natAbs = some (.integer n low high) := by
      unfold wholeNumber?
      rw [dif_neg (by simp), dif_pos ⟨by omega, by omega⟩]
      congr 2
      omega
    show readFrom {} ⟨.number .sign { negative := true }, stack⟩
      (utf8 (Text.natural n.natAbs ++ rest)) = _
    exact readFrom_natural (by omega) (by omega) (fun _ => step_sign_digit)
      number stops
  · rename_i negative
    rcases Nat.eq_zero_or_pos n.natAbs with zero | pos
    · have same : n = 0 := by omega
      subst same
      show readFrom {} ⟨.number .zero { whole := [0] }, stack⟩ (utf8 rest) = _
      exact readFrom_endNumber (.inl rfl) rfl stops
    · have number : wholeNumber? false n.natAbs = some (.integer n low high) := by
        unfold wholeNumber?
        rw [dif_pos ⟨rfl, by omega⟩]
        congr 2
        omega
      exact readFrom_natural pos (by omega) (fun _ => step_value_digit first)
        number stops

/-! ## Documents -/

theorem stops_writeItems (items : List Json) (rest : List Char) :
    Stops (writeItems false items (']' :: rest)) := by
  cases items with
  | nil => exact stops_cons (.inr (.inl rfl))
  | cons item items => exact stops_cons (.inl rfl)

theorem stops_writeEntries (entries : List (String × Json)) (rest : List Char) :
    Stops (writeEntries false entries ('\x7d' :: rest)) := by
  cases entries with
  | nil => exact stops_cons (.inr (.inr rfl))
  | cons entry entries => exact stops_cons (.inl rfl)

/-- A key and the colon behind it. -/
theorem readFrom_key {done : List (String × Json)} {before : String}
    (first : Bool) (key : String) (rest : List Char) :
    readFrom {} ⟨.key first, .object done before :: stack⟩
      (utf8 (writeString key (':' :: rest))) =
      readFrom {} ⟨.value false, .object done key :: stack⟩ (utf8 rest) := by
  show readFrom {} ⟨.string true .plain [], .object done before :: stack⟩
    (utf8 (writeChars key.toList ('"' :: ':' :: rest))) = _
  rw [readFrom_closeString]
  rfl

/-- Entries before the next one in ascending order. -/
theorem insert_next {done : List (String × Json)} {key : String} {value : Json}
    {entries : List (String × Json)}
    (ascending : Ascending (done ++ (key, value) :: entries)) :
    insert key value done = done ++ [(key, value)] := by
  refine insert_eq_append fun entry mem => ?_
  exact (List.pairwise_append.mp ascending).2.2 entry mem
    (key, value) List.mem_cons_self

mutual

/-- The text of a normal document delivers the document. -/
theorem read_write :
    (j : Json) → j.Normal →
    ∀ (first : Bool) {stack : List Container} {rest : List Char}, Stops rest →
    readFrom {} ⟨.value first, stack⟩ (utf8 (j.write rest)) =
      (deliver j stack).settle (utf8 rest)
  | .null, _, _, _, rest, _ => readFrom_deliver (b := 0x6c) rfl
  | .boolean true, _, _, _, rest, _ => readFrom_deliver (b := 0x65) rfl
  | .boolean false, _, _, _, rest, _ => readFrom_deliver (b := 0x65) rfl
  | .number (.integer _ low high), _, first, _, _, stops =>
    readFrom_integer first low high stops
  | .number (.double _), normal, _, _, _, _ => normal.elim
  | .string s, _, _, _, rest, _ => readFrom_closeString s rest
  | .array [], _, _, _, rest, _ => readFrom_deliver (b := 0x5d) rfl
  | .array (item :: items), normal, first, stack, rest, _ => by
    show readFrom {} ⟨.value true, .array [] :: stack⟩
      (utf8 (item.write (writeItems false items (']' :: rest)))) = _
    rw [read_write item normal.1 true (stops_writeItems items rest)]
    exact read_writeItems items normal.2 [item]
  | .object [], _, _, _, rest, _ => readFrom_deliver (b := 0x7d) rfl
  | .object ((key, value) :: entries), normal, first, stack, rest, _ => by
    show readFrom {} ⟨.key true, .object [] "" :: stack⟩
      (utf8 (writeString key
        (':' :: value.write (writeEntries false entries ('\x7d' :: rest))))) = _
    rw [readFrom_key,
      read_write value normal.2.1 false (stops_writeEntries entries rest)]
    exact read_writeEntries entries normal.2.2 [(key, value)] key normal.1

/-- The rest of an array, behind the items read so far. -/
theorem read_writeItems : (items : List Json) → NormalItems items →
    ∀ (done : List Json) {stack : List Container} {rest : List Char},
    readFrom {} ⟨.separator, .array done :: stack⟩
      (utf8 (writeItems false items (']' :: rest))) =
      (deliver (.array (done.reverse ++ items)) stack).settle (utf8 rest)
  | [], _, done, stack, rest => by
    rw [List.append_nil]
    exact readFrom_deliver (b := 0x5d) rfl
  | item :: items, normal, done, stack, rest => by
    show readFrom {} ⟨.value false, .array done :: stack⟩
      (utf8 (item.write (writeItems false items (']' :: rest)))) = _
    rw [read_write item normal.1 false (stops_writeItems items rest)]
    show readFrom {} ⟨.separator, .array (item :: done) :: stack⟩ _ = _
    rw [read_writeItems items normal.2 (item :: done), List.reverse_cons,
      List.append_assoc]
    rfl

/-- The rest of an object, behind the entries read so far. -/
theorem read_writeEntries :
    (entries : List (String × Json)) → NormalEntries entries →
    ∀ (done : List (String × Json)) (before : String) {stack : List Container}
    {rest : List Char}, Ascending (done ++ entries) →
    readFrom {} ⟨.separator, .object done before :: stack⟩
      (utf8 (writeEntries false entries ('\x7d' :: rest))) =
      (deliver (.object (done ++ entries)) stack).settle (utf8 rest)
  | [], _, done, before, stack, rest, _ => by
    rw [List.append_nil]
    exact readFrom_deliver (b := 0x7d) rfl
  | (key, value) :: entries, normal, done, before, stack, rest, ascending => by
    show readFrom {} ⟨.key false, .object done before :: stack⟩
      (utf8 (writeString key
        (':' :: value.write (writeEntries false entries ('\x7d' :: rest))))) = _
    rw [readFrom_key,
      read_write value normal.1 false (stops_writeEntries entries rest)]
    show readFrom {} ⟨.separator, .object (insert key value done) key :: stack⟩
      _ = _
    -- The next key is greater than those before it, so the reader puts its
    -- entry behind them.
    have appended : done ++ (key, value) :: entries =
      done ++ [(key, value)] ++ entries := by simp
    rw [insert_next ascending, appended]
    rw [appended] at ascending
    exact read_writeEntries entries normal.2 (done ++ [(key, value)]) key ascending

end

/-- The compact text of a normal document is read as the document. -/
theorem parse_write {j : Json} (normal : j.Normal) :
    parse {} (utf8 (j.write [])) = .ok j := by
  have whole : read {} (utf8 (j.write [])) = .ok (j, []) := by
    have nothing : Stops [] := by
      intro c tail same
      cases same
    exact read_write j normal false nothing
  unfold parse
  rw [whole]
  rfl

/-- Normal documents with one text are one. -/
theorem write_injective {j j' : Json} (first : j.Normal) (second : j'.Normal)
    (same : utf8 (j.write []) = utf8 (j'.write [])) : j = j' := by
  have read := parse_write first
  rw [same, parse_write second] at read
  cases read
  rfl

end FieldExpr.Json
