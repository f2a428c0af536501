import FieldExpr.Cache
import FieldExpr.Proofs.Program.Canonical

/-!
# Runs of the program cache

However a cache came about, each program in it is stored under its own digest.
What a cache hands back for a program therefore has that program's digest.
-/

namespace FieldExpr.Cache

/-- The caches that steps lead to, from the empty one on. -/
inductive Reached : Cache → Prop
  | empty : Reached {}
  | insert {c : Cache} {p : Program} : Reached c → p.WellFormed →
    Reached (c.insert p).2.2
  | get {c : Cache} (d : Digest) : Reached c → Reached (c.get d).2
  | getOrCompile {c : Cache} {e : Expression} : Reached c →
    e.compile.WellFormed → Reached (c.getOrCompile e).2.2
  | clear {c : Cache} : Reached c → Reached c.clear

/-- Each program is well formed and stands under its own digest. -/
def Keyed (c : Cache) : Prop :=
  ∀ d p, c.find? d = some p → p.digest = d ∧ p.WellFormed

variable {c : Cache} {p : Program}

theorem find?_get (c : Cache) (d : Digest) : (c.get d).2.find? = c.find? := by
  unfold get
  split <;> rfl

/-! ## One equation for each outcome -/

theorem insert_of_some {stored : Program} (found : c.find? p.digest = some stored) :
    c.insert p = (p.digest, stored, c) := by
  unfold Cache.insert
  dsimp only
  rw [found]

theorem insert_of_none (absent : c.find? p.digest = none) :
    c.insert p = (p.digest, p,
      { c with programs := (p.digest, p) :: c.programs }) := by
  unfold Cache.insert
  dsimp only
  rw [absent]

theorem get_of_some {d : Digest} {stored : Program}
    (found : c.find? d = some stored) :
    c.get d = (some stored, { c with hitCounter := c.hitCounter + 1 }) := by
  unfold Cache.get
  rw [found]

theorem get_of_none {d : Digest} (absent : c.find? d = none) :
    c.get d = (none, { c with missCounter := c.missCounter + 1 }) := by
  unfold Cache.get
  rw [absent]

theorem getOrCompile_of_some {e : Expression} {stored : Program}
    (found : c.find? e.compile.digest = some stored) :
    c.getOrCompile e =
      (e.compile.digest, stored, { c with hitCounter := c.hitCounter + 1 }) := by
  unfold Cache.getOrCompile
  dsimp only
  rw [get_of_some found]

/-- A program that is not there counts as a miss and is inserted. -/
theorem getOrCompile_of_none {e : Expression}
    (absent : c.find? e.compile.digest = none) :
    c.getOrCompile e = { c with missCounter := c.missCounter + 1 }.insert
      e.compile := by
  unfold Cache.getOrCompile
  dsimp only
  rw [get_of_none absent]

/-! ## Keys -/

/-- Whatever is stored, what an insertion hands back has the digest of the
program. -/
theorem Keyed.insert (keyed : c.Keyed) (wellFormed : p.WellFormed) :
    ((c.insert p).2.1.digest = p.digest ∧ (c.insert p).2.1.WellFormed) ∧
    (c.insert p).2.2.Keyed := by
  cases found : c.find? p.digest with
  | some stored =>
    rw [insert_of_some found]
    exact ⟨keyed _ _ found, keyed⟩
  | none =>
    rw [insert_of_none found]
    refine ⟨⟨rfl, wellFormed⟩, fun d q hit => ?_⟩
    change ((p.digest, p) :: c.programs).lookup d = some q at hit
    rw [List.lookup_cons] at hit
    cases same : d == p.digest with
    | true =>
      rw [same] at hit
      cases hit
      exact ⟨(eq_of_beq same).symm, wellFormed⟩
    | false =>
      rw [same] at hit
      exact keyed _ _ hit

theorem Keyed.get (keyed : c.Keyed) (d : Digest) : (c.get d).2.Keyed := by
  intro d' q hit
  rw [find?_get] at hit
  exact keyed _ _ hit

theorem Keyed.getOrCompile {e : Expression} (keyed : c.Keyed)
    (wellFormed : e.compile.WellFormed) :
    ((c.getOrCompile e).2.1.digest = e.compile.digest ∧
      (c.getOrCompile e).2.1.WellFormed) ∧
      (c.getOrCompile e).2.2.Keyed := by
  cases found : c.find? e.compile.digest with
  | some stored =>
    rw [getOrCompile_of_some found]
    exact ⟨keyed _ _ found, keyed⟩
  | none =>
    have missed : Keyed { c with missCounter := c.missCounter + 1 } := keyed
    rw [getOrCompile_of_none found]
    exact missed.insert wellFormed

/-- Every cache that steps lead to is keyed. -/
theorem Reached.keyed (reached : Reached c) : c.Keyed := by
  induction reached with
  | empty =>
    intro d p hit
    cases hit
  | insert _ wellFormed ih => exact (ih.insert wellFormed).2
  | get d _ ih => exact ih.get d
  | getOrCompile _ wellFormed ih => exact (ih.getOrCompile wellFormed).2
  | clear _ _ =>
    intro d p hit
    cases hit

end FieldExpr.Cache
