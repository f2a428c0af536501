import FieldExpr.Proofs.Evaluation.Lockstep

/-!
# The depth limit only cuts off

An evaluation that keeps within its limit goes the same way under every greater
one: it enters the same nodes, at the same depths, and comes to the same value
or error. What cells remember does not change this. The two evaluations make
their cells in step, and a cell that is forced out of depth fails the whole left
evaluation, so none is ever read that remembers an exceeded limit on one side
and an outcome on the other.
-/

namespace FieldExpr

open Likeness

/-- An evaluation with a limit beside one with a greater limit. Only the left
one may run out of depth, and then it blames its own limit. -/
def limitLikeness (limit : Nat) : Likeness where
  error e e' := e = e' ∧ ∀ other, e ≠ .depthLimitExceeded other
  excused e := e = .depthLimitExceeded limit
  closure := Eq

/-- Settings with another limit. -/
def Settings.limitedTo (settings : Settings) (limit : Nat) : Settings :=
  { settings with maxDepth := limit }

theorem lawful_limitLikeness (settings : Settings) {limit deeper : Nat}
    (le : limit ≤ deeper) :
    (limitLikeness limit).Lawful (settings.limitedTo limit)
      (settings.limitedTo deeper) := by
  refine ⟨fun _ operand => ⟨rfl, operand.ne_depthLimitExceeded⟩, rfl, ?_,
    le, .inl rfl⟩
  rintro c c' rfl
  have unbound : ∀ b, (limitLikeness limit).error (.unboundBinding b)
      (.unboundBinding b) :=
    fun b => ⟨rfl, nofun⟩
  exact .refl (fun _ => rfl) unbound c

namespace Program

/-- Under a greater limit an evaluation goes the same way, unless it has
exceeded the limit it has. -/
theorem evaluationUnder_limitedTo (settings : Settings) (p : Program)
    (context : Context) (subject : Value) {limit deeper : Nat}
    (le : limit ≤ deeper) :
    (p.evaluationUnder (settings.limitedTo limit) context subject).result =
          (p.evaluationUnder (settings.limitedTo deeper) context subject).result ∧
        (p.evaluationUnder (settings.limitedTo limit) context
          subject).machine.visits =
          (p.evaluationUnder (settings.limitedTo deeper) context
            subject).machine.visits ∨
      (p.evaluationUnder (settings.limitedTo limit) context subject).result =
        .error (.depthLimitExceeded limit) := by
  have ends := (lawful_limitLikeness settings le).evaluationUnder
    (show (limitLikeness limit).closure (p.closure context subject)
      (p.closure context subject) from rfl)
  rcases ends.eq_or_excused And.left with same | ⟨_, failed, rfl⟩
  · exact .inl same
  · exact .inr failed

/-- An exceeded limit is the limit of the evaluation. -/
theorem eq_maxDepth_of_exceeded {settings : Settings} {p : Program}
    {context : Context} {subject : Value} {limit : Nat}
    (failed : (p.evaluationUnder settings context subject).result =
      .error (.depthLimitExceeded limit)) :
    limit = settings.maxDepth := by
  have ends :=
    (lawful_limitLikeness settings (Nat.le_refl settings.maxDepth)).evaluationUnder
    (show (limitLikeness settings.maxDepth).closure (p.closure context subject)
      (p.closure context subject) from rfl)
  rcases ends.of_failed failed with own | ⟨_, _, other⟩
  · cases own
    rfl
  · exact absurd rfl (other limit)

/-- The limit of a configuration only cuts evaluations off. One that does not
exceed it comes to the same value or error under every greater limit and enters
the same nodes in the same order, and one that does blames the limit of its
configuration; so no program has two values under two limits. -/
theorem evaluation_maxDepth (config : EngineConfig) (p : Program)
    (context : Context) (subject : Value) :
    (∀ n m : UInt64, n ≤ m →
      (∀ limit, (p.evaluation { config with maxDepth := n } context
        subject).result ≠ .error (.depthLimitExceeded limit)) →
      (p.evaluation { config with maxDepth := m } context subject).result =
          (p.evaluation { config with maxDepth := n } context subject).result ∧
        (p.evaluation { config with maxDepth := m } context
          subject).machine.visits =
          (p.evaluation { config with maxDepth := n } context
            subject).machine.visits) ∧
    (∀ (n : UInt64) (limit : Nat),
      (p.evaluation { config with maxDepth := n } context subject).result =
        .error (.depthLimitExceeded limit) →
      limit = n.toNat) ∧
    (∀ (n m : UInt64) (v w : Value),
      (p.evaluation { config with maxDepth := n } context subject).result = .ok v →
      (p.evaluation { config with maxDepth := m } context subject).result = .ok w →
      v = w) := by
  have deeper : ∀ n m : UInt64, n ≤ m →
      (∀ limit, (p.evaluation { config with maxDepth := n } context
        subject).result ≠ .error (.depthLimitExceeded limit)) →
      (p.evaluation { config with maxDepth := m } context subject).result =
          (p.evaluation { config with maxDepth := n } context subject).result ∧
        (p.evaluation { config with maxDepth := m } context
          subject).machine.visits =
          (p.evaluation { config with maxDepth := n } context
            subject).machine.visits := by
    intro n m le finished
    have ends := p.evaluationUnder_limitedTo (Settings.ofConfig config context)
      context subject (UInt64.le_iff_toNat_le.mp le)
    obtain ⟨result, visits⟩ := ends.resolve_right (finished _)
    exact ⟨result.symm, visits.symm⟩
  have values : ∀ n m : UInt64, n ≤ m → ∀ v w : Value,
      (p.evaluation { config with maxDepth := n } context subject).result = .ok v →
      (p.evaluation { config with maxDepth := m } context subject).result = .ok w →
      v = w := by
    intro n m le v w first second
    have same := (deeper n m le fun limit => by rw [first]; exact nofun).1
    rw [first, second] at same
    exact (Except.ok.inj same).symm
  refine ⟨deeper, fun n limit failed => eq_maxDepth_of_exceeded failed,
    fun n m v w first second => ?_⟩
  rcases UInt64.le_total n m with le | le
  · exact values n m le v w first second
  · exact (values m n le w v second first).symm

/-- A deferred square that is read by a product, and again below a negation,
where it is known already. -/
def squareReadTwice : Program :=
  .functionDef ⟨0⟩
    (.binaryMath .multiply .integer (.lookup ⟨0⟩)
      (.unaryMath .negate .integer (.lookup ⟨0⟩)))
    (.defer (.binaryMath .multiply .integer .identity .identity))

/-- Four is the least limit that it keeps within, and a limit of fifty changes
nothing about that evaluation. -/
theorem evaluation_squareReadTwice :
    (squareReadTwice.evaluation { maxDepth := 50 } {} (.integer 3)).result =
        .ok (.integer (-81)) ∧
      (squareReadTwice.evaluation { maxDepth := 50 } {}
        (.integer 3)).machine.visits =
        (squareReadTwice.evaluation { maxDepth := 4 } {}
          (.integer 3)).machine.visits ∧
      (squareReadTwice.evaluation { maxDepth := 3 } {} (.integer 3)).result =
        .error (.depthLimitExceeded 3) ∧
      ∀ limit,
        (squareReadTwice.evaluation { maxDepth := 3 } {} (.integer 3)).result =
          .error (.depthLimitExceeded limit) →
        limit = 3 := by
  obtain ⟨deeper, blamed, _⟩ :=
    squareReadTwice.evaluation_maxDepth {} {} (.integer 3)
  have four :
    (squareReadTwice.evaluation { maxDepth := 4 } {} (.integer 3)).result =
    .ok (.integer (-81)) := rfl
  obtain ⟨result, visits⟩ := deeper 4 50 (by decide) fun limit => by
    rw [four]
    exact nofun
  exact ⟨result.trans four, visits, rfl, blamed 3⟩

end Program

end FieldExpr
