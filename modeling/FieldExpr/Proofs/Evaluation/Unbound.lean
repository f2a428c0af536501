import FieldExpr.Proofs.Artifact.Acceptance
import FieldExpr.Proofs.Evaluation.Lockstep
import FieldExpr.Proofs.Lookup
import FieldExpr.Proofs.Program.Free
import FieldExpr.Resolver

/-!
# Lookups that are not bound

An evaluation can only fail with an unbound binding that is free in its program
and that its context does not bind. Lexical scope says little about an
evaluation by itself: a deferred part runs later and elsewhere, in the scope it
was captured in. The invariant is one of closures: what is free in a closure's
part has a slot in the closure's scope, or is free in the whole program and
unbound in its context (`Supplied`). Every cell keeps such a closure, and
forcing it is an evaluation like any other.
-/

namespace FieldExpr

open Likeness

/-- What is free in a closure's part has a slot, or is one of the bindings that
nothing supplies. -/
def Supplied (unsupplied : Binding → Prop) (c : Closure) : Prop :=
  ∀ b, c.program.FreeIn b → c.scope.lookup b ≠ none ∨ unsupplied b

/-- An evaluation beside itself, with closures that are supplied and errors that
blame no other lookup. -/
def supplyLikeness (unsupplied : Binding → Prop) : Likeness where
  error e e' := e = e' ∧ ∀ b, e = .unboundBinding b → unsupplied b
  excused _ := False
  closure c c' := c = c' ∧ Supplied unsupplied c

section

variable {unsupplied : Binding → Prop}

/-- An error that is the input's fault blames no lookup. -/
theorem supplyLikeness_error (e : EvaluationError)
    (blameless : e.isInternal = false) :
    (supplyLikeness unsupplied).error e e := by
  refine ⟨rfl, ?_⟩
  rintro b rfl
  cases blameless

/-- A definition supplies its body with its binding, whatever slot that gets. -/
theorem Supplied.body {b : Binding} {body input : Program}
    {position : Program.Position} {scope : Scope} {subject : Value}
    (supplied : Supplied unsupplied ⟨.functionDef b body input, position,
      scope, subject⟩)
    (slot : Slot) (position' : Program.Position) :
    Supplied unsupplied ⟨body, position', (b, slot) :: scope, subject⟩ := by
  intro a free
  rw [List.lookup_cons]
  cases same : a == b with
  | true => exact .inl (by simp)
  | false =>
    refine supplied a (.inr ⟨?_, free⟩)
    rintro rfl
    simp at same

/-- Supplied closures have supplied parts, and their lookups have slots. -/
theorem Supplied.nodes (settings : Settings) {c : Closure}
    (supplied : Supplied unsupplied c) :
    (supplyLikeness unsupplied).Nodes settings c c := by
  obtain ⟨program, position, scope, subject⟩ := c
  cases program with
  | identity => exact .identity
  | lookup b =>
    -- A lookup is free in itself, so it has a slot or is one that nothing supplies.
    refine .lookup ?_
    cases found : scope.lookup b with
    | some slot => exact .ok slot
    | none =>
      refine .error ⟨rfl, fun a same => ?_⟩
      cases same
      exact (supplied b rfl).resolve_left (absurd found)
  | literal v shape => exact .literal
  | immediate inner => exact .immediate ⟨rfl, supplied⟩
  | defer inner => exact .defer ⟨rfl, supplied⟩
  | functionDef b body input =>
    refine .functionDef ⟨rfl, fun a free => supplied a (.inl free)⟩ fun slot => ?_
    exact ⟨rfl, supplied.body slot _⟩
  | pipe left right =>
    refine .pipe ⟨rfl, fun a free => supplied a (.inl free)⟩ fun v => ?_
    exact ⟨rfl, fun a free => supplied a (.inr free)⟩
  | equalTo tag left right =>
    exact .equalTo ⟨rfl, fun a free => supplied a (.inl free)⟩
      ⟨rfl, fun a free => supplied a (.inr free)⟩
  | binaryMath op tag left right =>
    exact .binaryMath ⟨rfl, fun a free => supplied a (.inl free)⟩
      ⟨rfl, fun a free => supplied a (.inr free)⟩
  | unaryMath op tag operand => exact .unaryMath ⟨rfl, supplied⟩
  | binaryLogical op left right =>
    exact .binaryLogical ⟨rfl, fun a free => supplied a (.inl free)⟩
      ⟨rfl, fun a free => supplied a (.inr free)⟩
  | not operand => exact .not ⟨rfl, supplied⟩
  | diverge condition onTrue onFalse =>
    exact .diverge ⟨rfl, fun a free => supplied a (.inl free)⟩
      ⟨rfl, fun a free => supplied a (.inr (.inl free))⟩
      ⟨rfl, fun a free => supplied a (.inr (.inr free))⟩
  | tupleGetIndex tuple index => exact .tupleGetIndex ⟨rfl, supplied⟩

theorem lawful_supplyLikeness (settings : Settings) :
    (supplyLikeness unsupplied).Lawful settings settings := by
  refine ⟨fun e operand => supplyLikeness_error e operand.isInternal, rfl, ?_,
    Nat.le_refl _, .inr ⟨rfl, supplyLikeness_error _ rfl⟩⟩
  rintro c c' ⟨rfl, supplied⟩
  exact supplied.nodes settings

end

/-- A context holds a slot for exactly the bindings it contains. -/
theorem lookup_slots (bindings : List (Binding × Value)) (b : Binding) :
    (bindings.map fun (binding, value) => (binding, Slot.ready value)).lookup b =
      (bindings.lookup b).map .ready :=
  lookup_map_values Slot.ready bindings b

/-- Whatever its settings, an evaluation blames no lookup but one that is free
in the program and unbound in the context. -/
theorem unbound_of_evaluationUnder {settings : Settings} {p : Program}
    {context : Context} {subject : Value} {b : Binding}
    (failed : (p.evaluationUnder settings context subject).result =
      .error (.unboundBinding b)) :
    p.FreeIn b ∧ context.contains b = false := by
  have supplied : Supplied (fun b => p.FreeIn b ∧ context.contains b = false)
      (p.closure context subject) := by
    intro a free
    show (context.bindings.map _).lookup a ≠ none ∨ p.FreeIn a ∧
      context.contains a = false
    rw [lookup_slots]
    unfold Context.contains Context.get?
    cases context.bindings.lookup a with
    | none => exact .inr ⟨free, rfl⟩
    | some value => exact .inl (by simp)
  have evaluations := (lawful_supplyLikeness settings).evaluationUnder
    ⟨rfl, supplied⟩
  obtain ⟨_, blamed⟩ := (evaluations.of_failed failed).resolve_left id
  exact blamed.2 b rfl

/-- A program without free bindings never fails with an unbound one. -/
theorem not_unbound_of_validate {p : Program} (valid : p.validate = .ok ())
    {config : EngineConfig} {context : Context} {subject : Value} {b : Binding} :
    p.evaluate config context subject ≠ .error (.unboundBinding b) := by
  intro failed
  exact Program.not_freeIn_of_validate valid b (unbound_of_evaluationUnder failed).1

/-! ## Programs that have been read -/

theorem validate_of_ofArtifact {config : EngineConfig}
    (checks : config.validateOnDecode = true) {document : Json} {p : Program}
    (read : Program.ofArtifact config document = .ok p) :
    p.validate = .ok () :=
  (Program.accept_eq_ok_iff.mp (Program.accept_of_ofArtifact read)).2.2 checks

theorem validate_of_ofBytes {config : EngineConfig}
    (checks : config.validateOnDecode = true) {bytes : List UInt8} {p : Program}
    (read : Program.ofBytes config bytes = .ok p) :
    p.validate = .ok () :=
  (Program.accept_eq_ok_iff.mp (Program.accept_of_ofBytes read)).2.2 checks

/-! ## Resolvers -/

/-- Evaluations log traces and debug messages only. -/
theorem level_ne_error_of_mem_log {e : Evaluation} {p : Program}
    {entry : LogEntry} (mem : entry ∈ e.log p) :
    entry.level ≠ .error := by
  unfold Evaluation.log at mem
  rcases List.mem_append.mp mem with visit | failure
  · obtain ⟨v, _, rfl⟩ := List.mem_map.mp visit
    simp
  · split at failure
    · cases failure
    · cases List.mem_singleton.mp failure
      simp

/-- A resolution logs an error only when the evaluation blames the program. -/
theorem isInternal_of_mem_log {r : Resolver} {parent : Json}
    {args : List (String × Json)} {entry : LogEntry}
    (mem : entry ∈ r.log parent args) (level : entry.level = .error) :
    ∃ subject e, (r.evaluation subject).result = .error e ∧
    e.isInternal = true := by
  unfold Resolver.log at mem
  split at mem
  · cases mem
  · rename_i subject _
    rcases List.mem_append.mp mem with inner | outer
    · exact absurd level (level_ne_error_of_mem_log inner)
    · have same := List.mem_singleton.mp outer
      subst same
      split at level
      · cases level
      · rename_i e failed
        split at level
        · rename_i internal
          exact ⟨subject, e, failed, internal⟩
        · cases level

/-- Only an unbound binding blames the program. -/
theorem exists_unbound_of_isInternal {e : EvaluationError}
    (internal : e.isInternal = true) :
    ∃ b, e = .unboundBinding b := by
  cases e with
  | unboundBinding b => exact ⟨b, rfl⟩
  | _ => cases internal

theorem not_isInternal_of_validate {r : Resolver}
    (valid : r.program.validate = .ok ()) {subject : Value}
    {e : EvaluationError} (failed : (r.evaluation subject).result = .error e) :
    e.isInternal = false := by
  refine Bool.eq_false_iff.mpr fun internal => ?_
  obtain ⟨b, rfl⟩ := exists_unbound_of_isInternal internal
  exact not_unbound_of_validate valid failed

/-- An error of a resolution's evaluation is an error of an evaluation
of its program. -/
theorem exists_failed_of_resolve {r : Resolver} {parent : Json}
    {args : List (String × Json)} {e : EvaluationError}
    (failed : r.resolve parent args = .error (.evaluation e)) :
    ∃ subject, (r.evaluation subject).result = .error e := by
  unfold Resolver.resolve at failed
  split at failed
  · cases failed
  · rename_i subject _
    split at failed
    · cases failed
    · rename_i error result
      cases failed
      exact ⟨subject, result⟩

/-! ## Soundness of the check -/

/-- Soundness of the check of scopes. An evaluation that fails with an unbound
binding has looked up a binding that is free in its program and that its context
does not bind; so a program that passes the check, as every program does that is
read with the check on, never fails in this way, and its resolver neither
returns nor logs a malformed program. -/
theorem validate_sound :
    (∀ (p : Program) (config : EngineConfig) (context : Context)
      (subject : Value) (b : Binding),
        p.evaluate config context subject = .error (.unboundBinding b) →
        p.FreeIn b ∧ context.contains b = false) ∧
    (∀ p : Program, p.validate = .ok () →
      ∀ (config : EngineConfig) (context : Context) (subject : Value) (b : Binding),
        p.evaluate config context subject ≠ .error (.unboundBinding b)) ∧
    (∀ (reading : EngineConfig), reading.validateOnDecode = true → ∀ p : Program,
      ((∃ document, Program.ofArtifact reading document = .ok p) ∨
        ∃ bytes, Program.ofBytes reading bytes = .ok p) →
      ∀ (config : EngineConfig) (context : Context) (subject : Value) (b : Binding),
        p.evaluate config context subject ≠ .error (.unboundBinding b)) ∧
    (∀ r : Resolver, r.program.validate = .ok () →
      ∀ (parent : Json) (args : List (String × Json)),
      (∀ e, r.resolve parent args = .error (.evaluation e) → e.isInternal = false) ∧
        ∀ entry ∈ r.log parent args, entry.level ≠ .error) := by
  refine ⟨?_, ?_, ?_, ?_⟩
  · intro p config context subject b failed
    exact unbound_of_evaluationUnder failed
  · intro p valid config context subject b
    exact not_unbound_of_validate valid
  · intro reading checks p read config context subject b
    rcases read with ⟨document, read⟩ | ⟨bytes, read⟩
    · exact not_unbound_of_validate (validate_of_ofArtifact checks read)
    · exact not_unbound_of_validate (validate_of_ofBytes checks read)
  · intro r valid parent args
    constructor
    · intro e failed
      obtain ⟨subject, result⟩ := exists_failed_of_resolve failed
      exact not_isInternal_of_validate valid result
    · intro entry mem level
      obtain ⟨subject, e, failed, internal⟩ := isInternal_of_mem_log mem level
      rw [not_isInternal_of_validate valid failed] at internal
      cases internal

/-- The subject, through a binding. -/
def Program.echo : Program :=
  .functionDef ⟨0⟩ (.lookup ⟨0⟩) .identity

theorem validate_sound_echo :
    ((Program.lookup ⟨0⟩).FreeIn ⟨0⟩ ∧ Context.contains {} ⟨0⟩ = false) ∧
    Program.echo.evaluate {} {} .unit ≠ .error (.unboundBinding ⟨0⟩) ∧
    Program.echo.evaluate { validateOnDecode := false } {} (.boolean true) ≠
      .error (.unboundBinding ⟨0⟩) ∧
    (Resolver.mk Program.echo {} none none).resolve .null [] ≠
      .error (.evaluation (.unboundBinding ⟨0⟩)) := by
  have failed : (Program.lookup ⟨0⟩).evaluate {} {} .unit =
    .error (.unboundBinding ⟨0⟩) := by rfl
  have valid : Program.echo.validate = .ok () := by rfl
  have read : Program.ofArtifact {} Program.echo.toArtifact =
    .ok Program.echo := by rfl
  obtain ⟨blames, never, reads, resolves⟩ := validate_sound
  refine ⟨blames _ _ _ _ _ failed, never _ valid _ _ _ _,
    reads {} rfl _ (.inl ⟨_, read⟩) _ _ _ _, ?_⟩
  intro malformed
  have harmless :=
    (resolves ⟨Program.echo, {}, none, none⟩ valid .null []).1 _ malformed
  cases harmless

end FieldExpr
