import FieldExpr.Proofs.Artifact.Canonical
import FieldExpr.Proofs.Cache
import Mathlib.Data.Finset.Card

/-!
# What a cache has seen

A cache is described by the requests since it was last cleared, whatever they
are and in whatever order they came. It holds the first program that was offered
under each digest, and it has counted each request for a digest as a hit if the
digest had been offered before and as a miss otherwise, up to where the counters
overflow. One request keeps the description right (`Describes.step`), so it is
right after every run (`describes_after`), and the answers follow from it.
-/

namespace FieldExpr.Cache

/-! ## Requests -/

/-- What a cache can be asked to do. -/
inductive Request where
  | insert (p : Program)
  | get (d : Digest)
  | getOrCompile (e : Expression)
  | contains (d : Digest)
  | statistics
  | clear

/-- What it answers. -/
inductive Answer where
  | stored (d : Digest) (p : Program)
  | found (p : Option Program)
  | present (answer : Bool)
  | counts (size hits misses : Nat)
  | cleared

/-- The answer to a request, and the cache after it. -/
def answer (c : Cache) : Request → Answer × Cache
  | .insert p => (.stored (c.insert p).1 (c.insert p).2.1, (c.insert p).2.2)
  | .get d => (.found (c.get d).1, (c.get d).2)
  | .getOrCompile e =>
    (.stored (c.getOrCompile e).1 (c.getOrCompile e).2.1, (c.getOrCompile e).2.2)
  | .contains d => (.present (c.contains d), c)
  | .statistics => (.counts c.size c.hits c.misses, c)
  | .clear => (.cleared, c.clear)

/-- The cache after a history of requests, the first one first. -/
def after (history : List Request) : Cache :=
  history.foldl (fun c r => (c.answer r).2) {}

namespace Request

def isClear : Request → Bool
  | .clear => true
  | _ => false

/-- The program that is stored unless there is one under its digest. -/
def offered? : Request → Option Program
  | .insert p => some p
  | .getOrCompile e => some e.compile
  | _ => none

/-- The digest whose presence is counted. -/
def asked? : Request → Option Digest
  | .get d => some d
  | .getOrCompile e => some e.compile.digest
  | _ => none

end Request

/-! ## The description -/

/-- The requests since the last one that cleared the cache. -/
def recent (history : List Request) : List Request :=
  history.foldl (fun since r => if r.isClear then [] else since ++ [r]) []

/-- The programs that were offered, the first one first. -/
def offers (since : List Request) : List Program :=
  since.filterMap Request.offered?

/-- The first program that was offered under a digest. -/
def firstOffer? (since : List Request) (d : Digest) : Option Program :=
  (offers since).find? (·.digest = d)

/-- The digests under which programs were offered. -/
def offeredDigests (since : List Request) : Finset Digest :=
  ((offers since).map Program.digest).toFinset

/-- The number of requests whose digest had been offered before them. -/
def hitCount (since : List Request) : Nat :=
  (List.range since.length).countP fun n =>
    (since[n]?.bind Request.asked?).any fun d =>
      (firstOffer? (since.take n) d).isSome

/-- The number of requests that are counted. -/
def askCount (since : List Request) : Nat :=
  since.countP (·.asked?.isSome)

/-- What a cache is like after these requests. -/
structure Describes (since : List Request) (c : Cache) : Prop where
  keyed : ∀ entry ∈ c.programs, entry.2.digest = entry.1
  find : ∀ d, c.find? d = firstOffer? since d
  size : c.size = (offeredDigests since).card
  hits : c.hits = hitCount since % UInt64.size
  misses : c.misses = (askCount since - hitCount since) % UInt64.size

variable {since : List Request} {c : Cache} {r : Request} {p : Program} {d : Digest}

theorem offers_append (since : List Request) (r : Request) :
    offers (since ++ [r]) = offers since ++ r.offered?.toList := by
  unfold offers
  rw [List.filterMap_append]
  cases r <;> rfl

theorem firstOffer?_append (since : List Request) (r : Request) (d : Digest) :
    firstOffer? (since ++ [r]) d =
      (firstOffer? since d).or (r.offered?.filter (·.digest = d)) := by
  unfold firstOffer?
  rw [offers_append, List.find?_append]
  cases r.offered? <;> simp [Option.filter]

theorem offeredDigests_append (since : List Request) (r : Request) :
    offeredDigests (since ++ [r]) =
      r.offered?.elim (offeredDigests since) fun p =>
        Insert.insert p.digest (offeredDigests since) := by
  unfold offeredDigests
  rw [offers_append]
  cases r.offered? with
  | none => simp
  | some p =>
    ext d
    simp [eq_comm]

theorem isSome_firstOffer? :
    (firstOffer? since d).isSome ↔ d ∈ offeredDigests since := by
  unfold firstOffer? offeredDigests
  simp

theorem hitCount_append (since : List Request) (r : Request) :
    hitCount (since ++ [r]) = hitCount since + if r.asked?.any fun d =>
      (firstOffer? since d).isSome then 1 else 0 := by
  unfold hitCount
  rw [List.length_append, List.length_singleton, List.range_succ,
    List.countP_append, List.countP_singleton]
  congr 1
  · -- The requests before the last one have the same ones before them
    -- as without it.
    apply List.countP_congr
    intro n mem
    have less := List.mem_range.mp mem
    rw [List.getElem?_append_left less,
      List.take_append_of_le_length (Nat.le_of_lt less)]
  · rw [List.getElem?_concat_length, List.take_left]
    rfl

theorem askCount_append (since : List Request) (r : Request) :
    askCount (since ++ [r]) = askCount since + if r.asked?.isSome then
    1 else 0 := by
  unfold askCount
  rw [List.countP_append, List.countP_singleton]

/-- Hits are requests that are counted. -/
theorem hitCount_le_askCount (since : List Request) :
    hitCount since ≤ askCount since := by
  induction since using List.reverseRecOn with
  | nil => exact Nat.le_refl 0
  | append_singleton since r ih =>
    rw [hitCount_append, askCount_append]
    cases r.asked? with
    | none => exact ih
    | some d =>
      refine Nat.add_le_add ih ?_
      split
      · exact Nat.le_refl 1
      · exact Nat.zero_le _

/-- The misses are the requests whose digest had not been offered before them. -/
theorem missCount_append (since : List Request) (r : Request) :
    askCount (since ++ [r]) - hitCount (since ++ [r]) =
      askCount since - hitCount since +
        if r.asked?.any fun d => (firstOffer? since d).isNone then 1 else 0 := by
  have le := hitCount_le_askCount since
  rw [hitCount_append, askCount_append]
  cases r.asked? with
  | none => rfl
  | some d =>
    rw [Option.any_some, Option.any_some, Option.isSome_some, if_pos rfl]
    generalize firstOffer? since d = first
    cases first with
    | none => exact Nat.sub_add_comm le
    | some p => exact Nat.add_sub_add_right _ 1 _

/-! ## Steps -/

theorem hits_mod (c : Cache) : c.hits % UInt64.size = c.hits :=
  Nat.mod_eq_of_lt c.hitCounter.toNat_lt

theorem misses_mod (c : Cache) : c.misses % UInt64.size = c.misses :=
  Nat.mod_eq_of_lt c.missCounter.toNat_lt

/-- The entries of a cache once a program has been offered to it. -/
def offer (entries : List (Digest × Program)) (p : Program) :
    List (Digest × Program) :=
  if (entries.lookup p.digest).isSome then entries else (p.digest, p) :: entries

theorem offer_of_some {stored : Program}
    (found : c.find? p.digest = some stored) : offer c.programs p = c.programs :=
  if_pos (Option.isSome_of_eq_some found)

theorem offer_of_none (absent : c.find? p.digest = none) :
    offer c.programs p = (p.digest, p) :: c.programs := by
  unfold offer
  rw [if_neg]
  intro found
  rw [show c.programs.lookup p.digest = none from absent] at found
  cases found

/-- What a request that does not clear the cache does to it: it stores the
program that it offers, and it counts the digest that it asks for. -/
theorem answer_eq (c : Cache) (kept : r.isClear = false) :
    (c.answer r).2.programs = r.offered?.elim c.programs (offer c.programs) ∧
      (c.answer r).2.hits =
        (c.hits + if r.asked?.any fun d => (c.find? d).isSome then 1 else 0) %
          UInt64.size ∧
      (c.answer r).2.misses =
        (c.misses + if r.asked?.any fun d => (c.find? d).isNone then 1 else 0) %
          UInt64.size := by
  have hits := c.hits_mod.symm
  have misses := c.misses_mod.symm
  have counted : ∀ counter : UInt64, (counter + 1).toNat =
      (counter.toNat + 1) % UInt64.size :=
    fun counter => counter.toNat_add 1
  cases r with
  | clear => cases kept
  | contains d => exact ⟨rfl, hits, misses⟩
  | statistics => exact ⟨rfl, hits, misses⟩
  | insert p =>
    cases found : c.find? p.digest with
    | some stored =>
      simp only [answer, insert_of_some found]
      exact ⟨(offer_of_some found).symm, hits, misses⟩
    | none =>
      simp only [answer, insert_of_none found]
      exact ⟨(offer_of_none found).symm, hits, misses⟩
  | get d =>
    cases found : c.find? d with
    | some stored =>
      simp only [answer, get_of_some found, Request.asked?, Option.any_some, found]
      exact ⟨rfl, counted _, misses⟩
    | none =>
      simp only [answer, get_of_none found, Request.asked?, Option.any_some, found]
      exact ⟨rfl, hits, counted _⟩
  | getOrCompile e =>
    cases found : c.find? e.compile.digest with
    | some stored =>
      simp only [answer, getOrCompile_of_some found, Request.asked?,
        Option.any_some, found]
      exact ⟨(offer_of_some found).symm, counted _, misses⟩
    | none =>
      simp only [answer, getOrCompile_of_none found, Request.asked?,
        Option.any_some, found]
      -- The miss is counted before the program is stored, which does not change
      -- what is found.
      rw [insert_of_none (c := { c with missCounter := c.missCounter + 1 }) found]
      exact ⟨(offer_of_none found).symm, hits, counted _⟩

theorem describes_empty : Describes [] {} :=
  ⟨fun _ mem => absurd mem List.not_mem_nil, fun _ => rfl, rfl, rfl, rfl⟩

/-- A program that is offered is found afterwards, unless another one was
found before. -/
theorem lookup_offer (entries : List (Digest × Program)) (p : Program)
    (d : Digest) :
    (offer entries p).lookup d = (entries.lookup d).or
      ((some p).filter (·.digest = d)) := by
  unfold offer
  by_cases same : p.digest = d
  · subst same
    cases found : entries.lookup p.digest <;> simp [found, Option.filter]
  · have other : (d == p.digest) = false := beq_eq_false_iff_ne.mpr (Ne.symm same)
    split
    · simp [Option.filter, same]
    · rw [List.lookup_cons, other]
      simp [Option.filter, same]

theorem mem_offer {entries : List (Digest × Program)} {entry : Digest × Program}
    (mem : entry ∈ offer entries p) :
    entry = (p.digest, p) ∨ entry ∈ entries := by
  unfold offer at mem
  split at mem
  · exact .inr mem
  · exact List.mem_cons.mp mem

/-- A program takes up room only under a digest that is new. -/
theorem length_offer (right : Describes since c) (p : Program) :
    (offer c.programs p).length =
      (Insert.insert p.digest (offeredDigests since)).card := by
  cases found : c.find? p.digest with
  | some stored =>
    have known : p.digest ∈ offeredDigests since := by
      rw [← isSome_firstOffer?, ← right.find, found]
      rfl
    rw [offer_of_some found, Finset.insert_eq_of_mem known]
    exact right.size
  | none =>
    have fresh : p.digest ∉ offeredDigests since := by
      rw [← isSome_firstOffer?, ← right.find, found]
      simp
    rw [offer_of_none found, Finset.card_insert_of_notMem fresh, ← right.size]
    rfl

/-- The description stays right with one more request. -/
theorem Describes.step (right : Describes since c) (kept : r.isClear = false) :
    Describes (since ++ [r]) (c.answer r).2 := by
  obtain ⟨programs, hits, misses⟩ := answer_eq c kept
  constructor
  · rw [programs]
    intro entry mem
    cases offered : r.offered? with
    | none =>
      rw [offered] at mem
      exact right.keyed entry mem
    | some p =>
      rw [offered] at mem
      rcases mem_offer mem with rfl | old
      · rfl
      · exact right.keyed entry old
  · intro d
    unfold find?
    rw [programs, firstOffer?_append, ← right.find]
    cases r.offered? with
    | none => simp [find?]
    | some p => exact lookup_offer c.programs p d
  · unfold Cache.size
    rw [programs, offeredDigests_append]
    cases r.offered? with
    | none => exact right.size
    | some p => exact length_offer right p
  · rw [hits, right.hits, Nat.mod_add_mod, hitCount_append]
    simp only [right.find]
  · rw [misses, right.misses, Nat.mod_add_mod, missCount_append]
    simp only [right.find]

/-! ## Runs -/

theorem after_append (history : List Request) (r : Request) :
    after (history ++ [r]) = ((after history).answer r).2 := by
  unfold after
  rw [List.foldl_append]
  rfl

theorem recent_append (history : List Request) (r : Request) :
    recent (history ++ [r]) = if r.isClear then [] else recent history ++ [r] := by
  unfold recent
  rw [List.foldl_append]
  rfl

/-- After every history the cache is as the requests since it was last
cleared describe it. -/
theorem describes_after (history : List Request) :
    Describes (recent history) (after history) := by
  induction history using List.reverseRecOn with
  | nil => exact describes_empty
  | append_singleton history r ih =>
    rw [after_append, recent_append]
    by_cases clears : r.isClear = true
    · rw [if_pos clears]
      cases r with
      | clear => exact describes_empty
      | _ => cases clears
    · rw [if_neg clears]
      exact ih.step (Bool.eq_false_iff.mpr clears)

/-- The answer to a request that comes after others since the cache was last
cleared. What is handed back for a program is the first one that was offered
under its digest, be it that program itself. -/
def answerAfter (since : List Request) : Request → Answer
  | .insert p => .stored p.digest ((firstOffer? since p.digest).getD p)
  | .get d => .found (firstOffer? since d)
  | .getOrCompile e =>
    .stored e.compile.digest ((firstOffer? since e.compile.digest).getD e.compile)
  | .contains d => .present (firstOffer? since d).isSome
  | .statistics =>
    .counts (offeredDigests since).card (hitCount since % UInt64.size)
      ((askCount since - hitCount since) % UInt64.size)
  | .clear => .cleared

theorem Describes.answer_fst (right : Describes since c) (r : Request) :
    (c.answer r).1 = answerAfter since r := by
  cases r with
  | clear => rfl
  | contains d =>
    show Answer.present (c.find? d).isSome = _
    rw [right.find]
    rfl
  | statistics =>
    show Answer.counts c.size c.hits c.misses = _
    rw [right.size, right.hits, right.misses]
    rfl
  | get d =>
    show _ = Answer.found (firstOffer? since d)
    rw [← right.find]
    cases found : c.find? d with
    | some stored => simp only [Cache.answer, get_of_some found]
    | none => simp only [Cache.answer, get_of_none found]
  | insert p =>
    show _ = Answer.stored p.digest ((firstOffer? since p.digest).getD p)
    rw [← right.find]
    cases found : c.find? p.digest with
    | some stored =>
      simp only [Cache.answer, insert_of_some found, Option.getD_some]
    | none => simp only [Cache.answer, insert_of_none found, Option.getD_none]
  | getOrCompile e =>
    show _ = Answer.stored e.compile.digest
      ((firstOffer? since e.compile.digest).getD e.compile)
    rw [← right.find]
    cases found : c.find? e.compile.digest with
    | some stored =>
      simp only [Cache.answer, getOrCompile_of_some found, Option.getD_some]
    | none =>
      simp only [Cache.answer, getOrCompile_of_none found, Option.getD_none]
      rw [insert_of_none (c := { c with missCounter := c.missCounter + 1 }) found]

/-! ## Programs that are handed back -/

/-- The hash does not take two of the programs for one: those that share a
digest have the same canonical bytes. -/
def Separate (programs : List Program) : Prop :=
  ∀ p ∈ programs, ∀ q ∈ programs, p.digest = q.digest →
    p.canonicalBytes = q.canonicalBytes

/-- What is handed back for a program is the same program, if the hash keeps the
programs that were offered apart. -/
theorem same_of_offered (wellFormed : ∀ q ∈ offers since ++ [p], q.WellFormed)
    (separate : Separate (offers since ++ [p])) :
    ((firstOffer? since p.digest).getD p).same p = true := by
  have last : p ∈ offers since ++ [p] := List.mem_append_right _ List.mem_cons_self
  have same : ∀ q ∈ offers since ++ [p], q.digest = p.digest → q.same p = true := by
    intro q mem digest
    have artifacts :=
      (Program.canonicalBytes_eq_iff q p).mp (separate q mem p last digest)
    exact (Program.toArtifact_eq_iff (wellFormed q mem) (wellFormed p last)).mp
      artifacts
  cases found : firstOffer? since p.digest with
  | none => exact same p last rfl
  | some q =>
    have mem : q ∈ offers since := List.mem_of_find?_eq_some found
    have digest : q.digest = p.digest := by simpa using List.find?_some found
    exact same q (List.mem_append_left _ mem) digest

/-- Every cache is what the requests since it was last cleared make of it, and
answers by them alone. Each program is stored under its own digest, and there
are as many as digests were offered. The first program that was offered under a
digest is the one that is found and handed back. Fewer requests for a digest
than the counters overflow at are the hits and misses together, and the hits are
those whose digest was there; nothing else is counted. What is handed back for a
program is that program up to the order of record fields and the scale of
decimals, unless the hash takes it for another one. -/
theorem after_history (history : List Request) :
    Describes (recent history) (after history) ∧
    (askCount (recent history) < UInt64.size →
      (after history).hits = hitCount (recent history) ∧
        (after history).hits + (after history).misses = askCount (recent history)) ∧
    (∀ r, ((after history).answer r).1 = answerAfter (recent history) r) ∧
    (∀ r, r.asked? = none → r.isClear = false →
      ((after history).answer r).2.hits = (after history).hits ∧
        ((after history).answer r).2.misses = (after history).misses) ∧
    ∀ r p, r.offered? = some p →
      (∀ q ∈ offers (recent history) ++ [p], q.WellFormed) →
      Separate (offers (recent history) ++ [p]) →
        ∃ stored, ((after history).answer r).1 = .stored p.digest stored ∧
        stored.same p = true := by
  have right := describes_after history
  refine ⟨right, ?_, right.answer_fst, ?_, ?_⟩
  · intro room
    have le := hitCount_le_askCount (recent history)
    rw [right.hits, right.misses, Nat.mod_eq_of_lt (Nat.lt_of_le_of_lt le room),
      Nat.mod_eq_of_lt (Nat.lt_of_le_of_lt (Nat.sub_le _ _) room)]
    exact ⟨rfl, Nat.add_sub_cancel' le⟩
  · intro r unasked kept
    obtain ⟨_, hits, misses⟩ := answer_eq (after history) kept
    rw [unasked] at hits misses
    exact ⟨hits.trans (hits_mod _), misses.trans (misses_mod _)⟩
  · intro r p offered wellFormed separate
    refine ⟨(firstOffer? (recent history) p.digest).getD p, ?_,
      same_of_offered wellFormed separate⟩
    rw [right.answer_fst]
    cases r with
    | insert q =>
      cases offered
      rfl
    | getOrCompile e =>
      cases offered
      rfl
    | _ => cases offered

/-- A program that is stored, forgotten and stored again, before one that is the
same is asked for. -/
def storedTwice : List Request :=
  [.insert .halfFirst, .clear, .insert .halfFirst, .get Program.halfLast.digest]

theorem after_storedTwice :
    askCount (recent storedTwice) < UInt64.size ∧
      (after storedTwice).hits + (after storedTwice).misses = 1 ∧
      (∀ q ∈ [Program.halfFirst, Program.halfLast], q.WellFormed) ∧
      Separate [Program.halfFirst, Program.halfLast] ∧
      ((after storedTwice).answer (.insert .halfLast)).1 =
        .stored Program.halfLast.digest .halfFirst ∧
      Program.halfFirst.same .halfLast = true ∧
      ((after storedTwice).answer .statistics).1 = .counts 1 1 0 ∧
      ((after storedTwice).answer (.insert .halfLast)).2.hits =
        (after storedTwice).hits := by
  have wellFormed : ∀ q ∈ [Program.halfFirst, Program.halfLast], q.WellFormed := by
    simp [Program.WellFormed, Program.halfFirst, Program.halfLast,
      Program.literals, Value.WellFormed, Value.WellFormedFields]
  have bytes : Program.halfFirst.canonicalBytes =
      Program.halfLast.canonicalBytes := by
    rw [Program.canonicalBytes_eq_iff,
      Program.toArtifact_eq_iff (wellFormed _ (by simp)) (wellFormed _ (by simp))]
    decide
  have digest : Program.halfFirst.digest = Program.halfLast.digest := by
    simp only [Program.digest, bytes]
  have separate : Separate [Program.halfFirst, Program.halfLast] := by
    intro p first q second _
    simp only [List.mem_cons, List.not_mem_nil, or_false] at first second
    rcases first with rfl | rfl <;> rcases second with rfl | rfl <;> simp [bytes]
  have first : firstOffer? [.insert .halfFirst] Program.halfLast.digest =
      some .halfFirst := by
    simp [firstOffer?, offers, Request.offered?, digest]
  have since : recent storedTwice =
    [.insert .halfFirst] ++ [.get Program.halfLast.digest] := rfl
  have found : firstOffer? (recent storedTwice) Program.halfLast.digest =
      some .halfFirst := by
    rw [since, firstOffer?_append, first, Option.some_or]
  obtain ⟨_, counted, answers, uncounted, handed⟩ := after_history storedTwice
  have stored := answers (.insert .halfLast)
  rw [answerAfter, found, Option.getD_some] at stored
  obtain ⟨q, answer, same⟩ :=
    handed (.insert .halfLast) .halfLast rfl wellFormed separate
  rw [stored] at answer
  cases answer
  have room : askCount (recent storedTwice) < UInt64.size := by decide
  refine ⟨room, (counted room).2, wellFormed, separate, stored, same, ?_,
    (uncounted _ rfl rfl).1⟩
  have size : (offeredDigests (recent storedTwice)).card = 1 := rfl
  have hits : hitCount (recent storedTwice) = 1 := by
    have none : hitCount [.insert .halfFirst] = 0 := rfl
    have present : (Request.get Program.halfLast.digest).asked?.any
        (fun d => (firstOffer? [.insert .halfFirst] d).isSome) = true := by
      rw [Request.asked?, Option.any_some, first, Option.isSome_some]
    rw [since, hitCount_append, none, present]
    rfl
  have asks : askCount (recent storedTwice) = 1 := rfl
  rw [answers]
  show Answer.counts _ (hitCount _ % _) ((askCount _ - hitCount _) % _) = _
  rw [size, hits, asks]
  rfl

end FieldExpr.Cache
