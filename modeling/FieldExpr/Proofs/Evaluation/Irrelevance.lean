import FieldExpr.Proofs.Evaluation.Lockstep
import FieldExpr.Proofs.Evaluation.Unbound
import FieldExpr.Proofs.Program.Congruence

/-!
# What is not evaluated does not matter

A lookup that nothing binds fails as soon as it is evaluated, wherever it
stands, and no failure is ever recovered from, not even one that a cell
remembers. So a program with such a lookup that ends in anything else has not
evaluated it, and may have any other program in its place. The two evaluations
run in lockstep up to the hole; the errors that excuse the left one are those of
a hole that is reached, or of a depth that is exceeded before.
-/

namespace FieldExpr

open Likeness

/-- A hole beside any program: a lookup of the binding that stands for it. -/
def HoleOf (z : Binding) (p _ : Program) : Prop :=
  p = .lookup z

/-- Closures at one place that are equal but for parts where the left one looks
up a binding, which is neither in scope nor defined in the part. -/
structure Beside (z : Binding) (c c' : Closure) : Prop where
  program : c.program.Congruent (HoleOf z) c'.program
  undefined : z ∉ c.program.definedBindings
  unbound : c.scope.lookup z = none
  position : c.position = c'.position
  scope : c.scope = c'.scope
  subject : c.subject = c'.subject

/-- An evaluation that fails at its holes, beside one that has other
programs there. -/
def holeLikeness (z : Binding) : Likeness where
  error := Eq
  excused e := e = .unboundBinding z ∨ ∃ limit, e = .depthLimitExceeded limit
  closure := Beside z

section

variable {z : Binding} {settings : Settings}

/-- The nodes of closures that differ at holes are alike, or the left
one is a hole. -/
theorem Beside.nodes {c c' : Closure} (beside : Beside z c c') :
    (holeLikeness z).Nodes settings c c' := by
  obtain ⟨program, position, scope, subject⟩ := c
  obtain ⟨program', position', scope', subject'⟩ := c'
  obtain ⟨congruent, undefined, unbound, rfl, rfl, rfl⟩ := beside
  dsimp only at undefined unbound
  have part : ∀ {p p' : Program} (step : Nat) (v : Value),
      p.Congruent (HoleOf z) p' →
      program.children[step]? = some p →
      Beside z ⟨p, step :: position, scope, v⟩
        ⟨p', step :: position, scope, v⟩ := by
    intro p p' step v congruent child
    refine ⟨congruent, fun mem => undefined ?_, unbound, rfl, rfl, rfl⟩
    exact Program.mem_definedBindings_of_child (List.mem_of_getElem? child) mem
  cases congruent with
  | part hole =>
    cases hole
    exact .hole unbound (.inl rfl) (.inr ⟨_, rfl⟩)
  | identity => exact .identity
  | lookup b =>
    refine .lookup ?_
    cases scope.lookup b with
    | some slot => exact .ok slot
    | none => exact .error rfl
  | literal v shape => exact .literal
  | immediate inner => exact .immediate (part 0 subject inner rfl)
  | defer inner => exact .defer (part 0 subject inner rfl)
  | functionDef b body input =>
    refine .functionDef (part 0 subject input rfl) fun slot => ?_
    obtain ⟨congruent, undefined', unbound, _, _, _⟩ := part 1 subject body rfl
    refine ⟨congruent, undefined', ?_, rfl, rfl, rfl⟩
    -- The definition binds something else, so the binding of the holes stays
    -- out of scope.
    have other : z ≠ b := by
      rintro rfl
      exact undefined List.mem_cons_self
    show List.lookup z ((b, slot) :: scope) = none
    rw [List.lookup_cons, beq_eq_false_iff_ne.mpr other]
    exact unbound
  | pipe left right =>
    exact .pipe (part 0 subject left rfl) fun v => part 1 v right rfl
  | equalTo tag left right =>
    exact .equalTo (part 0 subject left rfl) (part 1 subject right rfl)
  | binaryMath op tag left right =>
    exact .binaryMath (part 0 subject left rfl) (part 1 subject right rfl)
  | unaryMath op tag operand => exact .unaryMath (part 0 subject operand rfl)
  | binaryLogical op left right =>
    exact .binaryLogical (part 0 subject left rfl) (part 1 subject right rfl)
  | not operand => exact .not (part 0 subject operand rfl)
  | diverge chooser onTrue onFalse =>
    exact .diverge (part 0 subject chooser rfl) (part 1 subject onTrue rfl)
      (part 2 subject onFalse rfl)
  | tupleGetIndex index tuple => exact .tupleGetIndex (part 0 subject tuple rfl)

theorem lawful_holeLikeness (z : Binding) (settings : Settings) :
    (holeLikeness z).Lawful settings settings :=
  ⟨fun _ _ => rfl, rfl, Beside.nodes, Nat.le_refl _, .inr ⟨rfl, rfl⟩⟩

end

namespace Program

/-- Where a program that looks up `z` in its hole ends neither in that lookup
nor out of depth, any program in the hole makes the evaluation enter the same
nodes and end in the same way. -/
theorem evaluationUnder_fill {C : Hollow} {z : Binding} {settings : Settings}
    {context : Context} {subject : Value}
    (undefined : z ∉ (C.fill (.lookup z)).definedBindings)
    (unbound : context.contains z = false)
    (unread : ((C.fill (.lookup z)).evaluationUnder settings context
      subject).result ≠ .error (.unboundBinding z))
    (shallow : ∀ limit,
      ((C.fill (.lookup z)).evaluationUnder settings context subject).result ≠
        .error (.depthLimitExceeded limit))
    (q : Program) :
    ((C.fill q).evaluationUnder settings context subject).result =
        ((C.fill (.lookup z)).evaluationUnder settings context subject).result ∧
      ((C.fill q).evaluationUnder settings context subject).machine.visits =
        ((C.fill (.lookup z)).evaluationUnder settings context
          subject).machine.visits := by
  have absent : ((C.fill (.lookup z)).closure context subject).scope.lookup z =
      none := by
    show (context.bindings.map _).lookup z = none
    rw [lookup_slots, Option.map_eq_none_iff]
    exact Option.isNone_iff_eq_none.mp (Option.isSome_eq_false_iff.mp unbound)
  have beside : Beside z ((C.fill (.lookup z)).closure context subject)
      ((C.fill q).closure context subject) :=
    ⟨.fill (show HoleOf z _ _ from rfl) C, undefined, absent, rfl, rfl, rfl⟩
  rcases ((lawful_holeLikeness z settings).evaluationUnder beside).eq_or_excused
      id with
    ⟨result, visits⟩ | ⟨_, failed, rfl | ⟨limit, rfl⟩⟩
  · exact ⟨result.symm, visits.symm⟩
  · exact absurd failed unread
  · exact absurd failed (shallow limit)

/-- What fills a hole makes no difference to the result of a program that does
not evaluate it: one that has a lookup there which nothing binds, and ends
neither in that lookup nor out of depth. -/
theorem evaluate_fill_eq (C : Hollow) (z : Binding) (config : EngineConfig)
    (context : Context) (subject : Value)
    (undefined : z ∉ (C.fill (.lookup z)).definedBindings)
    (unbound : context.contains z = false)
    (unread : (C.fill (.lookup z)).evaluate config context subject ≠
      .error (.unboundBinding z))
    (shallow : ∀ limit, (C.fill (.lookup z)).evaluate config context subject ≠
      .error (.depthLimitExceeded limit))
    (q : Program) :
    (C.fill q).evaluate config context subject =
      (C.fill (.lookup z)).evaluate config context subject :=
  (evaluationUnder_fill undefined unbound unread shallow q).1

/-- A deferred hole behind a connective that its left operand decides. -/
def skippedHole : Hollow :=
  .functionInput ⟨0⟩ (.binaryLogical .or .identity (.lookup ⟨0⟩))
    (.defer (.not .hole))

/-- The negation of a number is not reached either. -/
theorem evaluate_skippedHole :
    (skippedHole.fill (.literal (.integer 1) .integer)).evaluate {} {}
      (.boolean true) = .ok (.boolean true) := by
  have skipped :
    (skippedHole.fill (.lookup ⟨1⟩)).evaluate {} {} (.boolean true) =
    .ok (.boolean true) := rfl
  have undefined :
    (⟨1⟩ : Binding) ∉ (skippedHole.fill (.lookup ⟨1⟩)).definedBindings := by decide
  rw [evaluate_fill_eq skippedHole ⟨1⟩ {} {} (.boolean true) undefined rfl, skipped]
  · rw [skipped]
    exact nofun
  · intro limit
    rw [skipped]
    exact nofun

end Program

end FieldExpr
