import FieldExpr.Proofs.Json.Nesting

/-!
# The scan beside the reader

A scan of a text and the reader of the text take the same bytes. Up to the first
problem that the reader meets the scan counts the containers that the reader has
open, and is inside a string or behind a backslash when the reader is
(`State.tracks_step`). One problem the reader sees late: it looks at the digits
of a code unit all at once, and a scan takes a quote among them for the end of
the string. Such a reader is lost, and opens no container before it stops. So
the reader never has more containers open than a limit that the scan does not
pass (`peak_le_of_nestingExcess`).
-/

namespace FieldExpr.Json

open NestingScan (outside inside Silent)

/-! ## States of the reader -/

/-- Between the quotes of a string. -/
def Expected.inString : Expected → Bool
  | .string _ _ _ => true
  | _ => false

/-- Right behind the backslash of an escape. -/
def Expected.escaped : Expected → Bool
  | .string _ .escape _ => true
  | .string _ (.pairUnit _) _ => true
  | _ => false

/-- Where a scan of the bytes that the reader has taken stands. -/
def State.scan (s : State) : NestingScan :=
  ⟨s.containers.length, s.expected.inString, s.expected.escaped⟩

/-- The most containers that are open at once while the reader takes these
bytes, up to its end or first problem. -/
def peak (options : ReadOptions) (s : State) : List UInt8 → Nat
  | [] => s.containers.length
  | b :: rest =>
    match s.step options b with
    | .more next => max s.containers.length (peak options next rest)
    | _ => s.containers.length

/-- A byte that stands for a hexadecimal digit. -/
def IsHexDigit (b : UInt8) : Prop :=
  (Text.hexDigit? b).isSome = true

instance : DecidablePred IsHexDigit :=
  fun _ => inferInstanceAs (Decidable (_ = true))

/-- Digits of a code unit are digits, and the letters of a word do not
matter to a scan. -/
def Expected.Sound : Expected → Prop
  | .string _ (.unit _ digits) _ => ∀ b ∈ digits, IsHexDigit b
  | .word letters _ => ∀ b ∈ letters, Silent b
  | _ => True

/-- One of the digits of a code unit is none, which the reader does not know yet. -/
def Expected.Lost : Expected → Prop
  | .string _ (.unit _ digits) _ => ∃ b ∈ digits, ¬ IsHexDigit b
  | _ => False

/-! ## Bytes -/

variable {options : ReadOptions} {stack : List Container} {scan : NestingScan}
    {b : UInt8} {bytes : List UInt8}

/-- A byte with a property that no quote and no bracket has. -/
theorem silent_of {p : UInt8 → Prop}
    (marks : ¬ p 0x22 ∧ ¬ p 0x7b ∧ ¬ p 0x5b ∧ ¬ p 0x7d ∧ ¬ p 0x5d) (holds : p b) :
    Silent b := by
  obtain ⟨quote, brace, bracket, brace', bracket'⟩ := marks
  refine ⟨?_, ?_, ?_, ?_, ?_⟩ <;> (rintro rfl; contradiction)

theorem silent_of_isBlank (blank : isBlank b = true) : Silent b :=
  silent_of (p := fun b => isBlank b = true) (by decide) blank

theorem silent_of_digitOf? {digit : Nat} (found : digitOf? b = some digit) :
    Silent b :=
  silent_of (p := fun b => (digitOf? b).isSome = true) (by decide)
    (by rw [found]; rfl)

theorem silent_of_takeByte {phase next : NumberPhase} {n m : Numeral}
    (taken : takeByte phase n b = some (next, m)) :
    Silent b := by
  have marks : ∀ mark : UInt8, mark = 0x22 ∨ mark = 0x7b ∨ mark = 0x5b ∨
      mark = 0x7d ∨ mark = 0x5d →
      takeByte phase n mark = none := by
    rintro mark (rfl | rfl | rfl | rfl | rfl) <;> cases phase <;> rfl
  refine ⟨?_, ?_, ?_, ?_, ?_⟩
  all_goals
    rintro rfl
    rw [marks _ (by simp)] at taken
    cases taken

theorem plainByte_of_isHexDigit (digit : IsHexDigit b) : PlainByte b := by
  refine ⟨?_, ?_, fun control => ?_⟩
  · rintro rfl
    exact absurd digit (by decide)
  · rintro rfl
    exact absurd digit (by decide)
  · have small : b.toNat < 0x20 := control
    have none : Text.hexDigit? b = none := by
      unfold Text.hexDigit?
      simp only [UInt8.le_iff_toNat_le]
      rw [if_neg (by simp; omega), if_neg (by simp; omega), if_neg (by simp; omega)]
    unfold IsHexDigit at digit
    rw [none] at digit
    cases digit

/-- A code unit is read from digits only. -/
theorem isHexDigit_of_codeUnit? {digits : List UInt8} {unit : Nat}
    (read : codeUnit? digits = some unit) :
    ∀ b ∈ digits, IsHexDigit b := by
  unfold codeUnit? at read
  generalize 0 = value at read
  induction digits generalizing value with
  | nil => exact fun b mem => absurd mem List.not_mem_nil
  | cons digit rest ih =>
    rw [List.foldlM_cons] at read
    cases first : Text.hexDigit? digit with
    | none =>
      rw [first] at read
      cases read
    | some d =>
      rw [first] at read
      refine List.forall_mem_cons.mpr ⟨?_, ih _ read⟩
      unfold IsHexDigit
      rw [first]
      rfl

/-! ## Steps -/

/-- A step of the reader from where the scan stood: the scan has followed it
over the byte, or the reader is lost. -/
def Step.Tracks (scan : NestingScan) (b : UInt8) : Step → Prop
  | .more next =>
    scan.step b = next.scan ∧ next.expected.Sound ∨
      next.containers.length = scan.depth ∧ next.expected.Lost
  | .done _ true => scan.step b = outside 0
  | .done _ false => scan = outside 0
  | .malformed => True

theorem tracks_more {next : State} (step : scan.step b = next.scan)
    (sound : next.expected.Sound) :
    (Step.more next).Tracks scan b :=
  .inl ⟨step, sound⟩

theorem tracks_silent {expected : Expected} (silent : Silent b)
    (between : State.scan ⟨expected, stack⟩ = outside stack.length)
    (sound : expected.Sound) :
    (Step.more ⟨expected, stack⟩).Tracks (outside stack.length) b :=
  tracks_more ((NestingScan.step_outside silent).trans between.symm) sound

theorem tracks_deliver {value : Json}
    (behind : scan.step b = outside stack.length) :
    (deliver value stack).Tracks scan b := by
  cases stack with
  | nil => exact behind
  | cons container rest => cases container <;> exact tracks_more behind trivial

theorem tracks_openContainer {container : Container} {expected : Expected}
    (opens : (outside stack.length).step b =
      State.scan ⟨expected, container :: stack⟩) (sound : expected.Sound) :
    (openContainer options container expected stack).Tracks
      (outside stack.length) b := by
  unfold openContainer
  split
  · split
    · trivial
    · exact tracks_more opens sound
  · exact tracks_more opens sound

theorem tracks_closeArray (stack : List Container) :
    (closeArray stack).Tracks (outside stack.length) 0x5d := by
  cases stack with
  | nil => trivial
  | cons container rest =>
    cases container with
    | array items => exact tracks_deliver rfl
    | object entries key => trivial

theorem tracks_closeObject (stack : List Container) :
    (closeObject stack).Tracks (outside stack.length) 0x7d := by
  cases stack with
  | nil => trivial
  | cons container rest =>
    cases container with
    | array items => trivial
    | object entries key => exact tracks_deliver rfl

theorem silent_word {word : String}
    (all : (word.toUTF8.data.toList.all fun b => decide (Silent b)) = true) :
    ∀ b ∈ word.toUTF8.data.toList, Silent b :=
  fun b mem => of_decide_eq_true (List.all_eq_true.mp all b mem)

theorem tracks_startValue (first : Bool) :
    (startValue options first stack b).Tracks (outside stack.length) b := by
  unfold startValue
  split_ifs with blank quote brace bracket close null yes no minus
  · exact tracks_silent (silent_of_isBlank blank) rfl trivial
  · subst quote
    exact tracks_more rfl trivial
  · subst brace
    exact tracks_openContainer rfl trivial
  · subst bracket
    exact tracks_openContainer rfl trivial
  · rw [close.1]
    exact tracks_closeArray stack
  · subst null
    exact tracks_silent (by decide) rfl (silent_word (by decide))
  · subst yes
    exact tracks_silent (by decide) rfl (silent_word (by decide))
  · subst no
    exact tracks_silent (by decide) rfl (silent_word (by decide))
  · subst minus
    exact tracks_silent (by decide) rfl trivial
  · split
    · rename_i digit
      exact tracks_silent (silent_of_digitOf? digit) rfl trivial
    · rename_i digit
      exact tracks_silent (silent_of_digitOf? digit) rfl trivial
    · trivial

theorem tracks_startKey (first : Bool) :
    (startKey first stack b).Tracks (outside stack.length) b := by
  unfold startKey
  split_ifs with blank quote close
  · exact tracks_silent (silent_of_isBlank blank) rfl trivial
  · subst quote
    exact tracks_more rfl trivial
  · rw [close.1]
    exact tracks_closeObject stack
  · trivial

theorem tracks_afterKey (key : String) :
    (afterKey key stack b).Tracks (outside stack.length) b := by
  unfold afterKey
  split_ifs with blank colon
  · exact tracks_silent (silent_of_isBlank blank) rfl trivial
  · subst colon
    split
    · exact tracks_more rfl trivial
    · trivial
  · trivial

theorem tracks_afterValue :
    (afterValue stack b).Tracks (outside stack.length) b := by
  unfold afterValue
  split_ifs with blank comma bracket brace
  · exact tracks_silent (silent_of_isBlank blank) rfl trivial
  · subst comma
    split
    · exact tracks_silent (by decide) rfl trivial
    · exact tracks_silent (by decide) rfl trivial
    · trivial
  · subst bracket
    exact tracks_closeArray stack
  · subst brace
    exact tracks_closeObject stack
  · trivial

theorem phase_of_takeUnit {half : Option Nat} {unit : Nat} {phase : StringPhase}
    {collected : List UInt8}
    (taken : takeUnit half unit bytes = some (phase, collected)) :
    phase = .plain ∨ ∃ first, phase = .pairEscape first := by
  unfold takeUnit at taken
  split at taken
  · split_ifs at taken
    · cases taken
      exact .inr ⟨_, rfl⟩
    · cases taken
      exact .inl rfl
  · split_ifs at taken
    cases taken
    exact .inl rfl

/-- A byte inside a string. -/
theorem tracks_inString {isKey : Bool} {phase : StringPhase}
    (sound : (Expected.string isKey phase bytes).Sound) :
    (inString options isKey phase bytes stack b).Tracks
      (State.scan ⟨.string isKey phase bytes, stack⟩) b := by
  cases phase with
  | plain =>
    show (if b = 0x22 then _ else if b = 0x5c then _ else if b < 0x20 then _
        else _ : Step).Tracks
      (inside stack.length) b
    split_ifs with quote backslash control
    · subst quote
      unfold endString
      split
      · trivial
      · split
        · exact tracks_more rfl trivial
        · exact tracks_deliver rfl
    · subst backslash
      exact tracks_more rfl trivial
    · trivial
    · exact tracks_more (NestingScan.step_inside ⟨quote, backslash, control⟩)
        trivial
  | escape =>
    show (if b = 0x75 then _ else _ : Step).Tracks _ b
    split
    · exact tracks_more rfl fun b mem => absurd mem List.not_mem_nil
    · split
      · exact tracks_more rfl trivial
      · trivial
  | unit half digits =>
    have inside : IsHexDigit b →
        (inside stack.length).step b = inside stack.length :=
      fun digit => NestingScan.step_inside (plainByte_of_isHexDigit digit)
    show (if digits.length < 3 then _ else _ : Step).Tracks
      (NestingScan.inside stack.length) b
    split
    · by_cases digit : IsHexDigit b
      · refine tracks_more (inside digit) fun c mem => ?_
        rcases List.mem_append.mp mem with before | last
        · exact sound c before
        · rw [List.mem_singleton.mp last]
          exact digit
      · exact .inr ⟨rfl, b, by simp, digit⟩
    · split
      · trivial
      · rename_i unit read
        have digit : IsHexDigit b := isHexDigit_of_codeUnit? read b (by simp)
        split
        · exact tracks_more (inside digit) trivial
        · split
          · rename_i taken
            rcases phase_of_takeUnit taken with rfl | ⟨first, rfl⟩
            · exact tracks_more (inside digit) trivial
            · exact tracks_more (inside digit) trivial
          · trivial
  | pairEscape half =>
    show (if b = 0x5c then _ else _ : Step).Tracks _ b
    split
    · rename_i backslash
      subst backslash
      exact tracks_more rfl trivial
    · trivial
  | pairUnit half =>
    show (if b = 0x75 then _ else _ : Step).Tracks _ b
    split
    · exact tracks_more rfl fun b mem => absurd mem List.not_mem_nil
    · trivial

/-- A byte inside or behind a number. -/
theorem tracks_inNumber {phase : NumberPhase} {n : Numeral} :
    (inNumber options phase n stack b).Tracks (outside stack.length) b := by
  unfold inNumber
  split
  · rename_i taken
    exact tracks_silent (silent_of_takeByte taken) rfl trivial
  · split
    · trivial
    · split
      · trivial
      · -- The byte is read again behind the number, where as many
        -- containers are open.
        rename_i number _
        cases stack with
        | nil => exact rfl
        | cons container rest => cases container <;> exact tracks_afterValue

/-- The scan follows each step of a reader that is not lost. -/
theorem State.tracks_step {s : State} (sound : s.expected.Sound) :
    (s.step options b).Tracks s.scan b := by
  obtain ⟨expected, stack⟩ := s
  cases expected with
  | value first => exact tracks_startValue first
  | key first => exact tracks_startKey first
  | colon key => exact tracks_afterKey key
  | separator => exact tracks_afterValue
  | string isKey phase bytes => exact tracks_inString sound
  | word letters value =>
    cases letters with
    | nil => trivial
    | cons letter rest =>
      have silent : Silent letter := sound letter List.mem_cons_self
      cases rest with
      | nil =>
        show (if b = letter then _ else _ : Step).Tracks (outside stack.length) b
        split_ifs with same
        · exact tracks_deliver (NestingScan.step_outside (same ▸ silent))
        · trivial
      | cons second rest =>
        show (if b = letter then _ else _ : Step).Tracks (outside stack.length) b
        split_ifs with same
        · exact tracks_silent (same ▸ silent) rfl fun c mem =>
            sound c (List.mem_cons_of_mem _ mem)
        · trivial
  | number phase n => exact tracks_inNumber

/-! ## Runs -/

theorem peak_more {s next : State} (step : s.step options b = .more next) :
    peak options s (b :: bytes) =
      max s.containers.length (peak options next bytes) := by
  rw [peak, step]

/-- What a text is read as comes from a run from the start, with blanks behind
it. -/
theorem readFrom_of_parse {document : Json}
    (read : parse options bytes = .ok document) :
    ∃ left, readFrom options .start bytes = .ok (document, left) ∧
    left.all isBlank = true := by
  unfold parse at read
  cases whole : Json.read options bytes with
  | error error =>
    rw [whole] at read
    cases read
  | ok result =>
    obtain ⟨value, left⟩ := result
    rw [whole] at read
    have read : (if left.all isBlank = true then Except.ok value
        else Except.error ReadError.malformed) =
      .ok document := read
    by_cases blanks : left.all isBlank = true
    · rw [if_pos blanks] at read
      cases read
      exact ⟨left, whole, blanks⟩
    · rw [if_neg blanks] at read
      cases read

/-- A lost reader stays where it is until it stops. -/
theorem State.step_of_lost {s : State} (lost : s.expected.Lost) (b : UInt8) :
    s.step options b = .malformed ∨
      ∃ next, s.step options b = .more next ∧ next.expected.Lost ∧
      next.containers = s.containers := by
  obtain ⟨expected, stack⟩ := s
  cases expected with
  | string isKey phase bytes =>
    cases phase with
    | unit half digits =>
      obtain ⟨wrong, mem, other⟩ := lost
      have kept : wrong ∈ digits ++ [b] := List.mem_append_left _ mem
      by_cases few : digits.length < 3
      · right
        refine ⟨⟨.string isKey (.unit half (digits ++ [b])) bytes, stack⟩,
          if_pos few, ⟨wrong, kept, other⟩, rfl⟩
      · left
        have none : codeUnit? (digits ++ [b]) = none := by
          cases read : codeUnit? (digits ++ [b]) with
          | none => rfl
          | some unit =>
            exact absurd (isHexDigit_of_codeUnit? read wrong kept) other
        show inString options isKey (.unit half digits) bytes stack b = _
        unfold inString
        dsimp only
        rw [if_neg few, none]
    | _ => exact lost.elim
  | _ => exact lost.elim

theorem peak_of_lost {s : State} (lost : s.expected.Lost) :
    peak options s bytes = s.containers.length := by
  induction bytes generalizing s with
  | nil => rfl
  | cons b rest ih =>
    have stays : s.step options b = .malformed ∨ _ := State.step_of_lost lost b
    rcases stays with stops | ⟨next, step, lost, same⟩
    · rw [peak, stops]
    · rw [peak_more step, ih lost, same, Nat.max_self]

/-- A reader keeps to every limit that the scan keeps to. -/
theorem peak_le_of_excess {s : State} {limit : Nat} (sound : s.expected.Sound)
    (room : s.containers.length ≤ limit)
    (keeps : s.scan.excess limit bytes = none) : peak options s bytes ≤ limit := by
  induction bytes generalizing s with
  | nil => exact room
  | cons b rest ih =>
    rw [NestingScan.excess] at keeps
    by_cases deep : limit < (s.scan.step b).depth
    · rw [if_pos deep] at keeps
      cases keeps
    · rw [if_neg deep] at keeps
      have tracks : (s.step options b).Tracks s.scan b := State.tracks_step sound
      rw [peak]
      cases step : s.step options b with
      | done value consumed => exact room
      | malformed => exact room
      | more next =>
        rw [step] at tracks
        refine Nat.max_le.mpr ⟨room, ?_⟩
        rcases tracks with ⟨followed, sound⟩ | ⟨same, lost⟩
        · rw [followed] at deep keeps
          exact ih sound (Nat.not_lt.mp deep) keeps
        · rw [peak_of_lost lost, same]
          exact room

theorem peak_le_of_nestingExcess {limit : Nat}
    (keeps : nestingExcess limit bytes = none) :
    peak options .start bytes ≤ limit :=
  peak_le_of_excess trivial (Nat.zero_le _) keeps

end FieldExpr.Json
