import FieldExpr.Proofs.Evaluation.Unbound

/-!
# What an evaluation depends on

An evaluation depends on its context only through the values of the program's free
bindings and the scale in force, and on the subject only if the program reads it.
Scopes that start out different grow side by side and are kept in cells, and only
ever differ in bindings that the part at hand does not look up: those are hidden
by a definition around the part, or are not free in the program at all.
-/

namespace FieldExpr

open Likeness

/-- An identity that stands in the right part of no pipe. -/
def Program.ReadsSubject : Program → Prop
  | .identity => True
  | .lookup _ => False
  | .immediate inner => inner.ReadsSubject
  | .defer inner => inner.ReadsSubject
  | .functionDef _ body input => input.ReadsSubject ∨ body.ReadsSubject
  | .literal _ _ => False
  | .pipe left _ => left.ReadsSubject
  | .equalTo _ left right => left.ReadsSubject ∨ right.ReadsSubject
  | .binaryMath _ _ left right => left.ReadsSubject ∨ right.ReadsSubject
  | .unaryMath _ _ operand => operand.ReadsSubject
  | .binaryLogical _ left right => left.ReadsSubject ∨ right.ReadsSubject
  | .not operand => operand.ReadsSubject
  | .diverge condition onTrue onFalse =>
    condition.ReadsSubject ∨ onTrue.ReadsSubject ∨ onFalse.ReadsSubject
  | .tupleGetIndex tuple _ => tuple.ReadsSubject

/-- Closures of one part whose scopes agree on what is free in it, and whose
subjects agree if it reads them. -/
structure Agreeing (c c' : Closure) : Prop where
  program : c.program = c'.program
  position : c.position = c'.position
  scope : ∀ b, c.program.FreeIn b → c.scope.lookup b = c'.scope.lookup b
  subject : c.program.ReadsSubject → c.subject = c'.subject

/-- Evaluations of one program that come to the same. -/
def agreement : Likeness where
  error := Eq
  excused _ := False
  closure := Agreeing

section

variable {settings : Settings}

/-- Scopes that agree on what is free in a definition agree on what is free in
its body, once both have its slot. -/
theorem lookup_body {b : Binding} {body input : Program} {scope scope' : Scope}
    (slot : Slot) (agree : ∀ a, (Program.functionDef b body input).FreeIn a →
      scope.lookup a = scope'.lookup a) (a : Binding)
    (free : body.FreeIn a) :
    List.lookup a ((b, slot) :: scope) = List.lookup a ((b, slot) :: scope') := by
  rw [List.lookup_cons, List.lookup_cons]
  cases same : a == b with
  | true => rfl
  | false =>
    exact agree a (.inr ⟨fun h => beq_eq_false_iff_ne.mp same h.symm, free⟩)

/-- Agreeing closures have agreeing parts, and their lookups find the same. -/
theorem Agreeing.nodes {c c' : Closure} (agreeing : Agreeing c c') :
    agreement.Nodes settings c c' := by
  obtain ⟨program, position, scope, subject⟩ := c
  obtain ⟨program', position', scope', subject'⟩ := c'
  obtain ⟨rfl, rfl, scopes, subjects⟩ := agreeing
  dsimp only at scopes subjects
  have part : ∀ {q : Program} (k : Nat), (∀ b, q.FreeIn b → program.FreeIn b) →
      (q.ReadsSubject → program.ReadsSubject) →
      Agreeing ⟨q, k :: position, scope, subject⟩
        ⟨q, k :: position, scope', subject'⟩ :=
    fun k free reads => ⟨rfl, rfl, fun b mem => scopes b (free b mem),
      fun mem => subjects (reads mem)⟩
  cases program with
  | identity =>
    cases subjects trivial
    exact .identity
  | lookup b =>
    refine .lookup ?_
    rw [scopes b rfl]
    cases scope'.lookup b with
    | some slot => exact .ok slot
    | none => exact .error rfl
  | literal v shape => exact .literal
  | immediate inner => exact .immediate (part 0 (fun _ => id) id)
  | defer inner => exact .defer (part 0 (fun _ => id) id)
  | functionDef b body input =>
    refine .functionDef (part 0 (fun _ => .inl) .inl) fun slot => ?_
    exact ⟨rfl, rfl, lookup_body slot scopes, fun reads => subjects (.inr reads)⟩
  | pipe left right =>
    refine .pipe (part 0 (fun _ => .inl) id) fun v => ?_
    exact ⟨rfl, rfl, fun b free => scopes b (.inr free), fun _ => rfl⟩
  | equalTo tag left right =>
    exact .equalTo (part 0 (fun _ => .inl) .inl) (part 1 (fun _ => .inr) .inr)
  | binaryMath op tag left right =>
    exact .binaryMath (part 0 (fun _ => .inl) .inl) (part 1 (fun _ => .inr) .inr)
  | unaryMath op tag operand => exact .unaryMath (part 0 (fun _ => id) id)
  | binaryLogical op left right =>
    exact .binaryLogical (part 0 (fun _ => .inl) .inl) (part 1 (fun _ => .inr) .inr)
  | not operand => exact .not (part 0 (fun _ => id) id)
  | diverge condition onTrue onFalse =>
    exact .diverge (part 0 (fun _ => .inl) .inl)
      (part 1 (fun _ free => .inr (.inl free)) fun reads => .inr (.inl reads))
      (part 2 (fun _ free => .inr (.inr free)) fun reads => .inr (.inr reads))
  | tupleGetIndex tuple index => exact .tupleGetIndex (part 0 (fun _ => id) id)

theorem lawful_agreement (settings : Settings) :
    agreement.Lawful settings settings :=
  ⟨fun _ _ => rfl, rfl, Agreeing.nodes, Nat.le_refl _, .inr ⟨rfl, rfl⟩⟩

end

/-- The fraction digits that decimal division keeps: a scale that the context
carries goes before that of the configuration. -/
def EngineConfig.scaleIn (config : EngineConfig) (context : Context) :
    Option UInt32 :=
  context.decimalScale.orElse fun _ => config.decimalScale

/-- The settings of an evaluation are its limit and the scale in force. -/
theorem Settings.ofConfig_congr {config config' : EngineConfig}
    {context context' : Context} (limit : config.maxDepth = config'.maxDepth)
    (scale : config.scaleIn context = config'.scaleIn context') :
    Settings.ofConfig config context = Settings.ofConfig config' context' := by
  show Settings.mk config.maxDepth.toNat
    ((config.scaleIn context).map UInt32.toNat) = _
  rw [limit, scale]
  rfl

namespace Program

/-- Under the same settings, contexts that agree on the free bindings make no
difference to an evaluation, and nor do subjects that the program does not read. -/
theorem evaluationUnder_of_agree (settings : Settings) {p : Program}
    {context context' : Context} {subject subject' : Value}
    (agree : ∀ b, p.FreeIn b → context.get? b = context'.get? b)
    (subjects : p.ReadsSubject → subject = subject') :
    (p.evaluationUnder settings context subject).result =
      (p.evaluationUnder settings context' subject').result ∧
      (p.evaluationUnder settings context subject).machine.visits =
        (p.evaluationUnder settings context' subject').machine.visits := by
  have agreeing :
      Agreeing (p.closure context subject) (p.closure context' subject') := by
    refine ⟨rfl, rfl, fun b free => ?_, subjects⟩
    show (context.bindings.map _).lookup b = (context'.bindings.map _).lookup b
    rw [lookup_slots, lookup_slots]
    exact congrArg (Option.map Slot.ready) (agree b free)
  rcases ((lawful_agreement settings).evaluationUnder agreeing).eq_or_excused
    id with same | ⟨_, _, excuse⟩
  · exact same
  · exact excuse.elim

/-- Evaluations with the same limit and the same scale in force, in contexts that
agree on the free bindings of the program, come to the same on the same subject,
and on any two subjects if the program does not read them. So what a caller binds
makes no difference to a program that passes the check of its scopes. -/
theorem evaluate_of_agree :
    (∀ (p : Program) (config config' : EngineConfig) (context context' : Context),
      config.maxDepth = config'.maxDepth →
      config.scaleIn context = config'.scaleIn context' →
      (∀ b, p.FreeIn b → context.get? b = context'.get? b) →
      (∀ subject, p.evaluate config context subject =
        p.evaluate config' context' subject) ∧
        (¬ p.ReadsSubject → ∀ subject subject',
          p.evaluate config context subject =
            p.evaluate config' context' subject')) ∧
    (∀ p : Program, p.validate = .ok () →
      ∀ (config : EngineConfig) (context context' : Context),
      config.scaleIn context = config.scaleIn context' →
      ∀ subject, p.evaluate config context subject =
        p.evaluate config context' subject) := by
  have agreed : ∀ (p : Program) (config config' : EngineConfig)
      (context context' : Context), config.maxDepth = config'.maxDepth →
      config.scaleIn context = config'.scaleIn context' →
      (∀ b, p.FreeIn b → context.get? b = context'.get? b) → ∀ subject subject',
      (p.ReadsSubject → subject = subject') →
      p.evaluate config context subject = p.evaluate config' context' subject' := by
    intro p config config' context context' limit scale agree subject
      subject' subjects
    unfold evaluate evaluation
    rw [Settings.ofConfig_congr limit scale]
    exact (evaluationUnder_of_agree _ agree subjects).1
  refine ⟨?_, ?_⟩
  · intro p config config' context context' limit scale agree
    constructor
    · intro subject
      exact agreed p _ _ _ _ limit scale agree subject subject fun _ => rfl
    · intro unread subject subject'
      exact agreed p _ _ _ _ limit scale agree subject subject' fun reads =>
        absurd reads unread
  · intro p valid config context context' scale subject
    have closed : ∀ b, p.FreeIn b → context.get? b = context'.get? b :=
      fun b free => absurd free (not_freeIn_of_validate valid b)
    exact agreed p _ _ _ _ rfl scale closed subject subject fun _ => rfl

/-- A third of what the context binds to `$1`, through a deferred
definition of `$0`. -/
def third : Program :=
  .functionDef ⟨0⟩
    (.binaryMath .divide .decimal (.lookup ⟨0⟩) (.literal (.integer 3) .integer))
    (.defer (.pipe (.lookup ⟨1⟩) .identity))

/-- What is free in it is five in both contexts, beside a value of `$0` in one
and a hidden one of `$1` in the other. The scale is that of the configuration in
one and that of the context in the other. -/
theorem evaluate_third :
    third.evaluate { decimalScale := some 2 }
        { bindings := [(⟨0⟩, .unit), (⟨1⟩, .integer 5)] } .unit =
        third.evaluate {}
          { bindings := [(⟨1⟩, .integer 5), (⟨1⟩, .unit)], decimalScale := some 2 }
          (.boolean true) ∧
      echo.evaluate {} { bindings := [(⟨0⟩, .integer 5)] } (.boolean true) =
        echo.evaluate {} {} (.boolean true) := by
  obtain ⟨agreed, valid⟩ := evaluate_of_agree
  have agree : ∀ b, third.FreeIn b →
      Context.get? { bindings := [(⟨0⟩, .unit), (⟨1⟩, .integer 5)] } b =
        Context.get?
          { bindings := [(⟨1⟩, .integer 5), (⟨1⟩, .unit)], decimalScale := some 2 }
          b := by
    intro b free
    rcases free with (rfl | unused) | ⟨other, same | unused⟩
    · rfl
    · exact unused.elim
    · exact absurd same other
    · exact unused.elim
  have unread : ¬ third.ReadsSubject := by simp [third, ReadsSubject]
  have thirds := agreed third { decimalScale := some 2 } {}
    { bindings := [(⟨0⟩, .unit), (⟨1⟩, .integer 5)] }
    { bindings := [(⟨1⟩, .integer 5), (⟨1⟩, .unit)], decimalScale := some 2 }
      rfl rfl agree
  exact ⟨thirds.2 unread .unit (.boolean true),
    valid echo rfl {} _ _ rfl (.boolean true)⟩

end Program

end FieldExpr
