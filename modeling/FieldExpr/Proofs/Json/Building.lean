import FieldExpr.Proofs.Json.Scanning

/-!
# What the reader builds

A document that has been read keeps what the reader kept while it built it.
Every entry went into its object by insertion, so the keys of every object
ascend. Every value stood inside the containers that were open, so no document
nests deeper than the most containers that were open at once (`parse_fits`). The
values that a text overwrites by a later one of the same key count among those
that were open, so a document may well nest less deep.
-/

namespace FieldExpr.Json

/-! ## Keyed documents -/

mutual

/-- Every object has ascending keys. -/
def Keyed : Json → Prop
  | .array items => KeyedItems items
  | .object entries => Ascending entries ∧ KeyedEntries entries
  | _ => True

/-- `Keyed` for every item. -/
def KeyedItems : List Json → Prop
  | [] => True
  | item :: rest => item.Keyed ∧ KeyedItems rest

/-- `Keyed` for the value of every entry. -/
def KeyedEntries : List (String × Json) → Prop
  | [] => True
  | (_, value) :: rest => value.Keyed ∧ KeyedEntries rest

end

theorem keyedItems_iff {items : List Json} :
    KeyedItems items ↔ ∀ item ∈ items, item.Keyed := by
  induction items with
  | nil => simp [KeyedItems]
  | cons item rest ih => rw [KeyedItems, ih, List.forall_mem_cons]

theorem keyedEntries_iff {entries : List (String × Json)} :
    KeyedEntries entries ↔ ∀ entry ∈ entries, entry.2.Keyed := by
  induction entries with
  | nil => simp [KeyedEntries]
  | cons entry rest ih =>
    show entry.2.Keyed ∧ KeyedEntries rest ↔ _
    rw [ih, List.forall_mem_cons]

/-- What a name finds in a keyed document is keyed. -/
theorem keyed_of_get? {document member : Json} {name : String}
    (keyed : document.Keyed) (found : document.get? name = some member) :
    member.Keyed := by
  cases document with
  | object entries => exact keyedEntries_iff.mp keyed.2 _ (mem_of_lookup found)
  | _ => cases found

/-! ## Room -/

/-- A keyed document that has room inside `height` containers where no more than
`limit` may be open. -/
structure Fits (limit height : Nat) (j : Json) : Prop where
  keyed : j.Keyed
  nesting : height + j.nesting ≤ limit

/-- No container and nothing in it: a document that fits wherever a
container is open. -/
def Plain : Json → Prop
  | .array _ => False
  | .object _ => False
  | _ => True

variable {limit height : Nat} {options : ReadOptions} {stack : List Container}
    {b : UInt8} {bytes : List UInt8}

theorem Plain.fits {j : Json} (plain : j.Plain) (room : height ≤ limit) :
    j.Fits limit height := by
  cases j with
  | array items => exact plain.elim
  | object entries => exact plain.elim
  | _ => exact ⟨trivial, room⟩

theorem fits_array {items : List Json} (room : height + 1 ≤ limit)
    (fits : ∀ item ∈ items, item.Fits limit (height + 1)) :
    (Json.array items).Fits limit height := by
  have inner : nestingItems items ≤ limit - (height + 1) := by
    refine nestingItems_le_iff.mpr fun item mem => ?_
    have le := (fits item mem).nesting
    omega
  refine ⟨keyedItems_iff.mpr fun item mem => (fits item mem).keyed, ?_⟩
  show height + (1 + nestingItems items) ≤ limit
  omega

theorem fits_object {entries : List (String × Json)} (room : height + 1 ≤ limit)
    (ascending : Ascending entries)
    (fits : ∀ entry ∈ entries, entry.2.Fits limit (height + 1)) :
    (Json.object entries).Fits limit height := by
  have inner : nestingEntries entries ≤ limit - (height + 1) := by
    refine nestingEntries_le_iff.mpr fun entry mem => ?_
    have le := (fits entry mem).nesting
    omega
  refine ⟨⟨ascending, keyedEntries_iff.mpr fun entry mem =>
    (fits entry mem).keyed⟩, ?_⟩
  show height + (1 + nestingEntries entries) ≤ limit
  omega

/-! ## Open containers -/

/-- What an open container has so far fits inside it and those around it. -/
def Container.Fits (limit height : Nat) : Container → Prop
  | .array items => ∀ item ∈ items, item.Fits limit height
  | .object entries _ => Ascending entries ∧ ∀ entry ∈ entries,
    entry.2.Fits limit height

/-- `Container.Fits` for each of the open containers, with those that it stands
in. -/
def StackFits (limit : Nat) : List Container → Prop
  | [] => True
  | container :: rest =>
    container.Fits limit (rest.length + 1) ∧ StackFits limit rest

/-- Everything that has been read fits, and a word that is being read stands for
something plain. -/
structure State.Fits (limit : Nat) (s : State) : Prop where
  stack : StackFits limit s.containers
  word : ∀ letters value, s.expected = .word letters value → value.Plain

/-- Everything that has been read fits after the step. -/
def Step.Fits (limit : Nat) : Step → Prop
  | .more next => next.Fits limit
  | .done value _ => value.Fits limit 0
  | .malformed => True

theorem step_fits {expected : Expected} (fits : StackFits limit stack)
    (noWord : ∀ letters value, expected ≠ .word letters value) :
    (Step.more ⟨expected, stack⟩).Fits limit :=
  ⟨fits, fun letters value same => absurd same (noWord letters value)⟩

theorem word_fits {letters : List UInt8} {value : Json}
    (fits : StackFits limit stack) (plain : value.Plain) :
    (Step.more ⟨.word letters value, stack⟩).Fits limit := by
  refine ⟨fits, fun _ _ same => ?_⟩
  cases same
  exact plain

/-- A value that fits inside the open containers goes into the innermost one. -/
theorem deliver_fits {value : Json} (fits : StackFits limit stack)
    (value_fits : value.Fits limit stack.length) :
    (deliver value stack).Fits limit := by
  cases stack with
  | nil => exact value_fits
  | cons container rest =>
    cases container with
    | array items =>
      refine step_fits ⟨?_, fits.2⟩ nofun
      exact List.forall_mem_cons.mpr ⟨value_fits, fits.1⟩
    | object entries key =>
      refine step_fits ⟨⟨insert_ascending fits.1.1, fun entry mem => ?_⟩,
        fits.2⟩ nofun
      rcases mem_of_mem_insert mem with rfl | old
      · exact value_fits
      · exact fits.1.2 entry old

theorem openContainer_fits {container : Container} {expected : Expected}
    (fits : StackFits limit stack)
    (empty : container.Fits limit (stack.length + 1))
    (noWord : ∀ letters value, expected ≠ .word letters value) :
    (openContainer options container expected stack).Fits limit := by
  have opened : StackFits limit (container :: stack) := ⟨empty, fits⟩
  unfold openContainer
  split
  · split
    · trivial
    · exact step_fits opened noWord
  · exact step_fits opened noWord

theorem closeArray_fits (fits : StackFits limit stack)
    (room : stack.length ≤ limit) :
    (closeArray stack).Fits limit := by
  cases stack with
  | nil => trivial
  | cons container rest =>
    cases container with
    | array items =>
      refine deliver_fits fits.2 (fits_array room fun item mem => ?_)
      exact fits.1 item (List.mem_reverse.mp mem)
    | object entries key => trivial

theorem closeObject_fits (fits : StackFits limit stack)
    (room : stack.length ≤ limit) :
    (closeObject stack).Fits limit := by
  cases stack with
  | nil => trivial
  | cons container rest =>
    cases container with
    | array items => trivial
    | object entries key =>
      exact deliver_fits fits.2 (fits_object room fits.1.1 fits.1.2)

/-! ## Steps -/

theorem startValue_fits (first : Bool) (fits : StackFits limit stack)
    (room : stack.length ≤ limit) :
    (startValue options first stack b).Fits limit := by
  unfold startValue
  split_ifs with blank quote brace bracket close null yes no minus
  · exact step_fits fits nofun
  · exact step_fits fits nofun
  · exact openContainer_fits fits ⟨List.Pairwise.nil, nofun⟩ nofun
  · exact openContainer_fits fits nofun nofun
  · exact closeArray_fits fits room
  · exact word_fits fits trivial
  · exact word_fits fits trivial
  · exact word_fits fits trivial
  · exact step_fits fits nofun
  · split
    · exact step_fits fits nofun
    · exact step_fits fits nofun
    · trivial

theorem startKey_fits (first : Bool) (fits : StackFits limit stack)
    (room : stack.length ≤ limit) :
    (startKey first stack b).Fits limit := by
  unfold startKey
  split_ifs with blank quote close
  · exact step_fits fits nofun
  · exact step_fits fits nofun
  · exact closeObject_fits fits room
  · trivial

theorem afterKey_fits (key : String) (fits : StackFits limit stack) :
    (afterKey key stack b).Fits limit := by
  unfold afterKey
  split_ifs with blank colon
  · exact step_fits fits nofun
  · split
    · exact step_fits fits nofun
    · trivial
  · trivial

theorem afterValue_fits (fits : StackFits limit stack)
    (room : stack.length ≤ limit) :
    (afterValue stack b).Fits limit := by
  unfold afterValue
  split_ifs with blank comma bracket brace
  · exact step_fits fits nofun
  · split
    · exact step_fits fits nofun
    · exact step_fits fits nofun
    · trivial
  · exact closeArray_fits fits room
  · exact closeObject_fits fits room
  · trivial

theorem endString_fits (isKey : Bool) (fits : StackFits limit stack)
    (room : stack.length ≤ limit) :
    (endString options isKey bytes stack).Fits limit := by
  unfold endString
  split
  · trivial
  · split
    · exact step_fits fits nofun
    · exact deliver_fits fits (Plain.fits trivial room)

theorem inString_fits {isKey : Bool} {phase : StringPhase}
    (fits : StackFits limit stack) (room : stack.length ≤ limit) :
    (inString options isKey phase bytes stack b).Fits limit := by
  have more : ∀ phase bytes, (Step.more ⟨.string isKey phase bytes, stack⟩).Fits
    limit := fun _ _ => step_fits fits nofun
  unfold inString
  dsimp only
  split
  · split_ifs
    · exact endString_fits isKey fits room
    · exact more _ _
    · trivial
    · exact more _ _
  · split
    · exact more _ _
    · split
      · exact more _ _
      · trivial
  · split
    · exact more _ _
    · split
      · trivial
      · split
        · exact more _ _
        · split
          · exact more _ _
          · trivial
  · split
    · exact more _ _
    · trivial
  · split
    · exact more _ _
    · trivial

theorem inNumber_fits {phase : NumberPhase} {n : Numeral}
    (fits : StackFits limit stack) (room : stack.length ≤ limit) :
    (inNumber options phase n stack b).Fits limit := by
  unfold inNumber
  split
  · exact step_fits fits nofun
  · split
    · trivial
    · split
      · trivial
      · rename_i number _
        have delivered :=
          deliver_fits fits (Plain.fits (j := .number number) trivial room)
        cases stack with
        | nil => exact delivered
        | cons container rest =>
          cases container <;> exact afterValue_fits delivered.stack room

/-- A step keeps to the limit as long as no more containers are open. -/
theorem State.fits_step {s : State} (fits : s.Fits limit)
    (room : s.containers.length ≤ limit) :
    (s.step options b).Fits limit := by
  obtain ⟨expected, stack⟩ := s
  obtain ⟨fits, words⟩ := fits
  cases expected with
  | value first => exact startValue_fits first fits room
  | key first => exact startKey_fits first fits room
  | colon key => exact afterKey_fits key fits
  | separator => exact afterValue_fits fits room
  | string isKey phase bytes => exact inString_fits fits room
  | word letters value =>
    have plain : value.Plain := words letters value rfl
    cases letters with
    | nil => trivial
    | cons letter rest =>
      cases rest with
      | nil =>
        show (if b = letter then _ else _ : Step).Fits limit
        split
        · exact deliver_fits fits (plain.fits room)
        · trivial
      | cons second rest =>
        show (if b = letter then _ else _ : Step).Fits limit
        split
        · exact word_fits fits plain
        · trivial
  | number phase n => exact inNumber_fits fits room

/-! ## Runs -/

theorem State.finish_fits {s : State} {j : Json}
    (read : s.finish options = .ok j) : j.Fits limit 0 := by
  unfold finish at read
  split at read
  · split at read
    · split at read
      · cases read
      · cases read
        exact Plain.fits trivial (Nat.zero_le _)
      · cases read
    · cases read
  · cases read

/-- What is read from a state on fits within the most containers that are
open meanwhile. -/
theorem readFrom_fits {s : State} {j : Json} {left : List UInt8}
    (fits : s.Fits limit) (room : peak options s bytes ≤ limit)
    (read : readFrom options s bytes = .ok (j, left)) : j.Fits limit 0 := by
  induction bytes generalizing s with
  | nil =>
    cases finish : s.finish options with
    | error error =>
      rw [readFrom, finish] at read
      cases read
    | ok value =>
      rw [readFrom, finish] at read
      cases read
      exact State.finish_fits finish
  | cons b rest ih =>
    rw [readFrom] at read
    rw [peak] at room
    have step_fits : s.containers.length ≤ limit →
      (s.step options b).Fits limit := State.fits_step fits
    cases step : s.step options b with
    | more next =>
      rw [step] at read room step_fits
      obtain ⟨here, further⟩ := Nat.max_le.mp room
      exact ih (step_fits here) further read
    | done value consumed =>
      rw [step] at read room step_fits
      cases read
      exact step_fits room
    | malformed =>
      rw [step] at read
      cases read

/-- What a text is read as has ascending keys, and nests no deeper than the
containers that were open. -/
theorem parse_fits {j : Json} (read : parse options bytes = .ok j) :
    j.Keyed ∧ j.nesting ≤ peak options .start bytes := by
  obtain ⟨left, whole, _⟩ := readFrom_of_parse read
  have start : State.start.Fits (peak options .start bytes) :=
    ⟨trivial, fun _ _ same => nomatch same⟩
  have fits : j.Fits (peak options .start bytes) 0 :=
    readFrom_fits start (Nat.le_refl _) whole
  exact ⟨fits.keyed, by simpa using fits.nesting⟩

end FieldExpr.Json
