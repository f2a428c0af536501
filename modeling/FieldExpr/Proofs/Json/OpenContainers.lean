import FieldExpr.Artifact.Reading
import FieldExpr.Proofs.Json.Scanning
import Mathlib.Order.Bounds.Defs

/-!
# How many containers a text opens

The containers that are open after each of the bytes that the reader takes make
up `openCounts`. A text whose scan keeps to a limit never has the reader open
more containers than that, whether the text is a document, stops being one
somewhere or goes on behind one. Of a text that is a document the scan finds
exactly the most containers that are open at once: a lost reader never completes
a document, and behind a complete one there are only blanks, so the scan and the
reader part nowhere (`excess_of_readFrom`).
-/

namespace FieldExpr.Json

open NestingScan (outside)

variable {options : ReadOptions} {s next : State} {b : UInt8}
    {bytes taken left : List UInt8} {limit : Nat}

/-! ## States on the way -/

/-- The state of a reader that has taken these bytes, unless it has
stopped among them. -/
def State.after? (options : ReadOptions) (s : State) : List UInt8 → Option State
  | [] => some s
  | b :: rest =>
    match s.step options b with
    | .more next => next.after? options rest
    | _ => none

/-- How many containers the reader of a text has open, before the first byte and
after each one that it takes. -/
def openCounts (bytes : List UInt8) : Set Nat :=
  {n | ∃ taken s, taken <+: bytes ∧ State.start.after? {} taken = some s ∧
    s.containers.length = n}

theorem State.after?_cons (step : s.step options b = .more next) :
    s.after? options (b :: taken) = next.after? options taken := by
  rw [after?, step]

theorem length_le_peak : s.containers.length ≤ peak options s bytes := by
  cases bytes with
  | nil => exact Nat.le_refl _
  | cons b rest =>
    rw [peak]
    split
    · exact Nat.le_max_left _ _
    · exact Nat.le_refl _

/-- No state on the way has more containers open than the peak. -/
theorem length_le_peak_of_after? (before : taken <+: bytes)
    (reached : s.after? options taken = some next) :
    next.containers.length ≤ peak options s bytes := by
  induction taken generalizing s bytes with
  | nil =>
    cases reached
    exact length_le_peak
  | cons b taken ih =>
    obtain ⟨rest, rfl⟩ := before
    rw [State.after?] at reached
    cases step : s.step options b with
    | more following =>
      rw [step] at reached
      have later := ih (List.prefix_append taken rest) reached
      rw [List.cons_append, peak_more step]
      exact Nat.le_trans later (Nat.le_max_right _ _)
    | done value consumed =>
      rw [step] at reached
      cases reached
    | malformed =>
      rw [step] at reached
      cases reached

/-- Some state on the way has as many containers open as the peak. -/
theorem exists_after?_peak (options : ReadOptions) (s : State)
    (bytes : List UInt8) :
    ∃ taken next, taken <+: bytes ∧ s.after? options taken = some next ∧
      next.containers.length = peak options s bytes := by
  have here : ∃ taken next, taken <+: bytes ∧ s.after? options taken = some next ∧
      next.containers.length = s.containers.length :=
    ⟨[], s, List.nil_prefix, rfl, rfl⟩
  induction bytes generalizing s with
  | nil => exact here
  | cons b rest ih =>
    cases step : s.step options b with
    | done value consumed =>
      rw [peak, step]
      exact here
    | malformed =>
      rw [peak, step]
      exact here
    | more following =>
      rw [peak_more step]
      by_cases deeper : s.containers.length ≤ peak options following rest
      · -- The most containers are open somewhere behind this byte.
        obtain ⟨taken, next, before, reached, most⟩ :=
          ih following ⟨[], following, List.nil_prefix, rfl, rfl⟩
        refine ⟨b :: taken, next, List.cons_prefix_cons.mpr ⟨rfl, before⟩, ?_, ?_⟩
        · rw [State.after?_cons step]
          exact reached
        · rw [Nat.max_eq_right deeper]
          exact most
      · rw [Nat.max_eq_left (by omega)]
        exact here

theorem isGreatest_openCounts (bytes : List UInt8) :
    IsGreatest (openCounts bytes) (peak {} .start bytes) := by
  constructor
  · exact exists_after?_peak {} .start bytes
  · intro n mem
    obtain ⟨taken, s, before, reached, length⟩ := mem
    rw [← length]
    exact length_le_peak_of_after? before reached

/-! ## Texts that are read -/

/-- A lost reader reads nothing. -/
theorem readFrom_of_lost {document : Json} (lost : s.expected.Lost) :
    readFrom options s bytes ≠ .ok (document, left) := by
  induction bytes generalizing s with
  | nil =>
    intro read
    obtain ⟨expected, stack⟩ := s
    cases expected with
    | string isKey phase collected => cases read
    | _ => exact lost.elim
  | cons b rest ih =>
    intro read
    rw [readFrom] at read
    rcases State.step_of_lost lost b with stops | ⟨following, step, lost, _⟩
    · rw [stops] at read
      cases read
    · rw [step] at read
      exact ih lost read

/-- The scan of blanks goes nowhere. -/
theorem excess_blanks {depth : Nat} (room : depth ≤ limit)
    (blanks : left.all isBlank = true) :
    (outside depth).excess limit left = none := by
  have still : ∀ b ∈ left, (outside depth).step b = outside depth := by
    intro b mem
    apply NestingScan.step_outside
    exact silent_of_isBlank (List.all_eq_true.mp blanks b mem)
  rw [← List.append_nil left,
    NestingScan.excess_still (s := outside depth) room still]
  rfl

/-- While a document is read, with blanks behind it, the scan passes a limit
exactly when the open containers do, and then by one. -/
theorem excess_of_readFrom {document : Json} (sound : s.expected.Sound)
    (room : s.containers.length ≤ limit)
    (read : readFrom options s bytes = .ok (document, left))
    (blanks : left.all isBlank = true) :
    s.scan.excess limit bytes = if peak options s bytes ≤ limit then none
    else some (limit + 1) := by
  induction bytes generalizing s with
  | nil =>
    rw [peak, if_pos room]
    rfl
  | cons b rest ih =>
    have tracks : (s.step options b).Tracks s.scan b := State.tracks_step sound
    rw [readFrom] at read
    cases step : s.step options b with
    | malformed =>
      rw [step] at read
      cases read
    | done value consumed =>
      rw [step] at read tracks
      cases read
      rw [peak, step, if_pos room]
      cases consumed with
      | true =>
        have outside : s.scan.step b = outside 0 := tracks
        rw [NestingScan.excess_cons outside (Nat.zero_le _)]
        exact excess_blanks (Nat.zero_le _) blanks
      | false =>
        have outside : s.scan = outside 0 := tracks
        rw [outside]
        exact excess_blanks (Nat.zero_le _) blanks
    | more following =>
      rw [step] at read tracks
      rw [peak_more step]
      rcases tracks with ⟨followed, sound⟩ | ⟨_, lost⟩
      · by_cases fits : following.containers.length ≤ limit
        · rw [NestingScan.excess_cons followed fits, ih sound fits read]
          -- The containers that are open here are within the limit, so they
          -- do not decide.
          simp only [Nat.max_le, room, true_and]
        · -- The byte opens one container too many, and the scan stops there.
          have opened : following.containers.length ≤ s.containers.length + 1 := by
            have depth := NestingScan.depth_step_le s.scan b
            rw [followed] at depth
            exact depth
          have exact_depth : following.scan.depth = limit + 1 := by
            show following.containers.length = limit + 1
            omega
          have peak_ge : following.containers.length ≤
            peak options following rest := length_le_peak
          rw [NestingScan.excess, followed, if_pos (by omega),
            if_neg (by omega), exact_depth]
      · exact absurd read (readFrom_of_lost lost)

/-- The scan of a text that is a document, with its exact outcome. -/
theorem nestingExcess_of_parse {document : Json}
    (read : parse options bytes = .ok document) (limit : Nat) :
    nestingExcess limit bytes = if peak options .start bytes ≤ limit then none
    else some (limit + 1) := by
  obtain ⟨left, whole, blanks⟩ := readFrom_of_parse read
  exact excess_of_readFrom (s := .start) trivial (Nat.zero_le _) whole blanks

/-! ## The bound -/

/-- The scan before parsing bounds the parser exactly. A text that it lets pass
never has more containers open than the limit, document or not. A text that is a
document passes exactly when the most containers that are ever open in it are
within the limit, and otherwise the scan stops one level past the limit, which
is what the reader of programs reports. -/
theorem nestingExcess_bounds_openCounts (bytes : List UInt8) (limit : Nat) :
    (nestingExcess limit bytes = none → ∀ n ∈ openCounts bytes, n ≤ limit) ∧
      ∀ document, parse {} bytes = .ok document →
        ∃ most, IsGreatest (openCounts bytes) most ∧
        nestingExcess limit bytes = (if most ≤ limit then none
          else some (limit + 1)) ∧
        ∀ config, Program.nestingLimit config = limit → limit < most →
          Program.ofBytes config bytes = .error (.tooDeep (limit + 1) limit) := by
  constructor
  · intro keeps n mem
    apply Nat.le_trans ((isGreatest_openCounts bytes).2 mem)
    exact peak_le_of_nestingExcess keeps
  · intro document read
    have exact_excess := nestingExcess_of_parse read limit
    refine ⟨peak {} .start bytes, isGreatest_openCounts bytes, exact_excess, ?_⟩
    intro config same deep
    rw [if_neg (Nat.not_le.mpr deep)] at exact_excess
    unfold Program.ofBytes
    rw [same, exact_excess]

/-- An object whose first value opens four arrays and is then overwritten by a
string with brackets and a quote. -/
def overwritten : List UInt8 :=
  "\x7b\"a\":[[[[]]]],\"a\":\"\\u005b[[[[[[\\\"\"\x7d".toUTF8.data.toList

/-- The document nests one level deep, and its text five. -/
theorem nestingExcess_overwritten :
    (∃ document, parse {} overwritten = .ok document ∧ document.nesting = 1) ∧
      (nestingExcess 5 overwritten = none ∧ ∀ n ∈ openCounts overwritten, n ≤ 5) ∧
      ∃ most, IsGreatest (openCounts overwritten) most ∧ 4 < most ∧
        Program.ofBytes { maxDepth := 0 } overwritten = .error (.tooDeep 5 4) := by
  have accepted :
      (parse {} overwritten).toOption.any
      (fun document => document.nesting == 1) = true := by
    decide +kernel
  have within : nestingExcess 5 overwritten = none := by decide +kernel
  have past : nestingExcess 4 overwritten = some 5 := by decide +kernel
  cases read : parse {} overwritten with
  | error error =>
    rw [read] at accepted
    cases accepted
  | ok document =>
    rw [read] at accepted
    obtain ⟨most, greatest, excess, reported⟩ :=
      (nestingExcess_bounds_openCounts overwritten 4).2 document read
    have deep : 4 < most := by
      by_contra fits
      rw [if_pos (Nat.not_lt.mp fits), past] at excess
      cases excess
    refine ⟨⟨document, rfl, eq_of_beq accepted⟩, ⟨within, ?_⟩, most,
      greatest, deep, ?_⟩
    · exact (nestingExcess_bounds_openCounts overwritten 5).1 within
    · exact reported { maxDepth := 0 } rfl deep

end FieldExpr.Json
