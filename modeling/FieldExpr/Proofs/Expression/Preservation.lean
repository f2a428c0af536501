import FieldExpr.Proofs.Evaluation.Adequacy
import FieldExpr.Proofs.Expression.Allocation
import FieldExpr.Proofs.Expression.Meaning
import FieldExpr.Proofs.Lookup

/-!
# Compilation preserves meaning

The program of an expression means what the expression means. Names in scope and
their bindings stand for the same (`Related`), and every binding in scope was
allocated before the counter: a new definition can hide an older one of its name,
but no binding is ever hidden. The number of nodes bounds the number of definitions,
so the counter does not wrap around where a depth limit allows the program.
-/

namespace FieldExpr

/-- Names whose bindings stand for what the names do, and were all allocated
before `next`. -/
structure Related (names : NameScope) (env : Environment)
    (scope : List (Binding × Meaning)) (next : UInt64) : Prop where
  allocated : ∀ {name b}, names.lookup name = some b → b.id.toNat < next.toNat
  meanings : ∀ {name b}, names.lookup name = some b →
    ∃ slot, env.lookup name = some slot ∧ scope.lookup b = some slot

namespace Related

variable {names : NameScope} {env : Environment}
    {scope : List (Binding × Meaning)} {next : UInt64}

theorem mono (related : Related names env scope next) (later : UInt64)
    (le : next.toNat ≤ later.toNat) :
    Related names env scope later where
  allocated found := Nat.lt_of_lt_of_le (related.allocated found) le
  meanings := related.meanings

/-- A binding that is allocated now is not that of any name in scope. -/
theorem fresh (related : Related names env scope next) {name : String} {b : Binding}
    (found : names.lookup name = some b) : (b == ⟨next⟩) = false := by
  refine beq_eq_false_iff_ne.mpr ?_
  rintro rfl
  exact Nat.lt_irrefl _ (related.allocated found)

/-- What is compiled first leaves the names in scope, and room for the bindings
of what is compiled second. -/
theorem split (related : Related names env scope next) {x : Compiling Program}
    {i j : Nat} (first : Allocates i x)
    (room : next.toNat + (i + j) < UInt64.size) :
    next.toNat + i < UInt64.size ∧ Related names env scope (x.after next) ∧
      (x.after next).toNat + j < UInt64.size := by
  have after := first.counter next (by omega)
  exact ⟨by omega, related.mono _ (by omega), by omega⟩

/-- A composition binds its argument to no name. -/
theorem hide (related : Related names env scope next) (slot : Meaning)
    (later : UInt64) (lt : next.toNat < later.toNat) :
    Related names env ((⟨next⟩, slot) :: scope) later where
  allocated found := Nat.lt_trans (related.allocated found) lt
  meanings found := by
    obtain ⟨slot', named, bound⟩ := related.meanings found
    refine ⟨slot', named, ?_⟩
    rw [List.lookup_cons, related.fresh found]
    exact bound

/-- A function binds its argument to its parameter, which hides an older name. -/
theorem bind (related : Related names env scope next) (parameter : String)
    (slot : Meaning) (later : UInt64) (lt : next.toNat < later.toNat) :
    Related ((parameter, ⟨next⟩) :: names) ((parameter, slot) :: env)
      ((⟨next⟩, slot) :: scope) later where
  allocated {name b} found := by
    rw [List.lookup_cons] at found
    split at found
    · cases found
      exact lt
    · exact Nat.lt_trans (related.allocated found) lt
  meanings {name b} found := by
    rw [List.lookup_cons] at found
    split at found
    · rename_i same
      cases found
      refine ⟨slot, ?_, List.lookup_cons_self⟩
      rw [List.lookup_cons, same]
    · rename_i different
      obtain ⟨slot', named, bound⟩ := (related.hide slot later lt).meanings found
      refine ⟨slot', ?_, bound⟩
      rw [List.lookup_cons, different]
      exact named

end Related

/-- Compiling turns literal operands into literal operands, and nothing else. -/
theorem Expression.operandOr_compileIn (e : Expression) (names : NameScope)
    (next : UInt64) (value : Except EvaluationError Value) :
    ((e.compileIn names).program next).operandOr value = e.operandOr value := by
  cases e with
  | apply function argument => cases function <;> rfl
  | _ => rfl

/-- A branch has the outcome of what it defers. -/
theorem Program.outcome_asBranch (settings : Settings) (p : Program)
    (scope : List (Binding × Meaning)) (subject : Value) :
    p.asBranch.meaning settings scope subject >>= Meaning.demand =
      p.meaning settings scope subject >>= Meaning.demand := by
  unfold asBranch
  split
  · rfl
  · rfl

/-- A name that is bound has a binding that stands for the same. -/
theorem Related.var {names : NameScope} {env : Environment}
    {scope : List (Binding × Meaning)} {next : UInt64}
    (related : Related names env scope next) {name : String}
    (closed : name ∈ names.map Prod.fst) (settings : Settings) (subject : Value) :
    (Program.lookup ((names.lookup name).getD .last)).meaning settings
      scope subject =
      (Expression.var name).meaning settings env subject := by
  obtain ⟨b, found⟩ := exists_lookup closed
  obtain ⟨slot, named, bound⟩ := related.meanings found
  show Rule.orFail _ (scope.lookup ((names.lookup name).getD .last)) =
    Rule.orFail _ (env.lookup name)
  rw [found, named]
  show Rule.orFail _ (scope.lookup b) = _
  rw [bound]
  rfl

/-- A definition means its body, with the slot of its input. -/
theorem Program.meaning_functionDef (settings : Settings) (b : Binding)
    (body input : Program) (scope : List (Binding × Meaning)) (subject : Value) :
    (Program.functionDef b body input).meaning settings scope subject =
      input.meaning settings scope subject >>= fun slot =>
        body.meaning settings ((b, slot) :: scope) subject := rfl

mutual

/-- The program of an expression means what the expression means, wherever names
and bindings stand for the same. -/
theorem Expression.preserves (settings : Settings) : (e : Expression) →
    ∀ {names : NameScope} {env : Environment} {scope : List (Binding × Meaning)}
      {next : UInt64}, e.ClosedIn (names.map Prod.fst) →
      Related names env scope next →
      next.toNat + e.definitions < UInt64.size → ∀ subject,
      ((e.compileIn names).program next).meaning settings scope subject =
        e.meaning settings env subject
  | .identity, _, _, _, _, _, _, _, _ => rfl
  | .var _, _, _, _, _, closed, related, _, subject =>
    related.var closed settings subject
  | .literal _ _, _, _, _, _, _, _, _, _ => rfl
  | .immediate inner, names, env, scope, next, closed, related, room, subject => by
    have same := inner.preserves settings closed related room
    show (Program.immediate ((inner.compileIn names).program next)).meaning
      settings scope subject = _
    simp only [Program.meaning, Expression.meaning, same]
  | .defer inner, names, env, scope, next, closed, related, room, subject => by
    have same := inner.preserves settings closed related room
    show (Program.defer ((inner.compileIn names).program next)).meaning settings
      scope subject = _
    simp only [Program.meaning, Expression.meaning, same]
  | .apply function argument, names, env, scope, next, closed, related, room,
      subject => by
    simp only [Expression.definitions] at room
    -- The argument is compiled inside the definition, whose own binding
    -- is taken first.
    have inside := function.definitions_pos
    have start : (next + 1).toNat = next.toNat + 1 :=
      Allocates.toNat_succ (by omega)
    exact function.preserves settings closed.2 related
      (argument.allocates names) room
        (argument.preserves settings closed.1
        (related.mono (next + 1) (by omega)) (by omega) subject)
  | .pipe left right, names, env, scope, next, closed, related, room, subject => by
    obtain ⟨room, related', room'⟩ := related.split (left.allocates names) room
    have first := left.preserves settings closed.1 related room
    have second := right.preserves settings closed.2 related' room'
    show (Program.pipe ((left.compileIn names).program next)
      ((right.compileIn names).program
        ((left.compileIn names).after next))).meaning settings scope subject = _
    simp only [Program.meaning, Expression.meaning, first, second]
  | .equalTo tag left right, names, env, scope, next, closed, related, room,
      subject => by
    obtain ⟨room, related', room'⟩ := related.split (left.allocates names) room
    have first := left.preserves settings closed.1 related room
    have second := right.preserves settings closed.2 related' room'
    show (Program.equalTo tag ((left.compileIn names).program next)
      ((right.compileIn names).program
        ((left.compileIn names).after next))).meaning settings scope subject = _
    simp only [Program.meaning, Expression.meaning,
      Expression.operandOr_compileIn, first, second]
  | .binaryMath op tag left right, names, env, scope, next, closed, related,
      room, subject => by
    obtain ⟨room, related', room'⟩ := related.split (left.allocates names) room
    have first := left.preserves settings closed.1 related room
    have second := right.preserves settings closed.2 related' room'
    show (Program.binaryMath op tag ((left.compileIn names).program next)
      ((right.compileIn names).program
        ((left.compileIn names).after next))).meaning settings scope subject = _
    simp only [Program.meaning, Expression.meaning,
      Expression.operandOr_compileIn, first, second]
  | .unaryMath op tag operand, names, env, scope, next, closed, related, room,
      subject => by
    have same := operand.preserves settings closed related room
    show (Program.unaryMath op tag
      ((operand.compileIn names).program next)).meaning settings scope subject = _
    simp only [Program.meaning, Expression.meaning,
      Expression.operandOr_compileIn, same]
  | .binaryLogical op left right, names, env, scope, next, closed, related,
      room, subject => by
    obtain ⟨room, related', room'⟩ := related.split (left.allocates names) room
    have first := left.preserves settings closed.1 related room
    have second := right.preserves settings closed.2 related' room'
    show (Program.binaryLogical op ((left.compileIn names).program next)
      ((right.compileIn names).program
        ((left.compileIn names).after next))).meaning settings scope subject = _
    simp only [Program.meaning, Expression.meaning, first, second]
  | .not operand, names, env, scope, next, closed, related, room, subject => by
    have same := operand.preserves settings closed related room
    show (Program.not ((operand.compileIn names).program next)).meaning settings
      scope subject = _
    simp only [Program.meaning, Expression.meaning, same]
  | .diverge condition onTrue onFalse, names, env, scope, next, closed, related,
      room, subject => by
    have room : next.toNat +
        (condition.definitions + (onTrue.definitions + onFalse.definitions)) <
        UInt64.size := by
      rw [← Nat.add_assoc condition.definitions]
      exact room
    obtain ⟨room, related', room'⟩ := related.split (condition.allocates names) room
    obtain ⟨room', related'', room''⟩ :=
      related'.split (onTrue.allocates names) room'
    have first := condition.preserves settings closed.1 related room
    have second := onTrue.preserves settings closed.2.1 related' room'
    have third := onFalse.preserves settings closed.2.2 related'' room''
    show (Program.diverge ((condition.compileIn names).program next)
      ((onTrue.compileIn names).program
        ((condition.compileIn names).after next)).asBranch
      ((onFalse.compileIn names).program ((onTrue.compileIn names).after
        ((condition.compileIn names).after next))).asBranch).meaning settings
          scope subject = _
    simp only [Program.meaning, Expression.meaning, Program.outcome_asBranch,
      first, second, third]
  | .tupleGetIndex tuple index, names, env, scope, next, closed, related, room,
      subject => by
    have same := tuple.preserves settings closed related room
    show (Program.tupleGetIndex ((tuple.compileIn names).program next)
      index).meaning settings scope subject = _
    simp only [Program.meaning, Expression.meaning, same]

/-- Applying a function to an input means what the function means at the input. -/
theorem Function.preserves (settings : Settings) : (f : Function) →
    ∀ {names : NameScope} {env : Environment} {scope : List (Binding × Meaning)}
      {next : UInt64} {x : Compiling Program} {count : Nat} {subject : Value}
      {argument : Except EvaluationError Meaning},
      f.ClosedIn (names.map Prod.fst) → Related names env scope next →
      Allocates count x →
      next.toNat + (count + f.definitions) < UInt64.size →
      (x.program (next + 1)).meaning settings scope subject = argument →
      ((f.compileIn names x).program next).meaning settings scope subject =
        argument >>= f.meaning settings env subject
  | .named parameter body, names, env, scope, next, x, count, subject, argument,
      closed, related, input, room, same => by
    simp only [Function.definitions] at room
    have after : (x.after (next + 1)).toNat = next.toNat + 1 + count :=
      input.after_succ (by omega)
    show (Program.functionDef ⟨next⟩
      ((body.compileIn ((parameter, ⟨next⟩) :: names)).program (x.after (next + 1)))
      (x.program (next + 1))).meaning settings scope subject = _
    rw [Program.meaning_functionDef, same]
    congr 1
    funext slot
    have related := related.bind parameter slot (x.after (next + 1)) (by omega)
    have closed : body.ClosedIn
      (((parameter, ⟨next⟩) :: names : NameScope).map Prod.fst) := closed
    exact body.preserves settings closed related (by omega) subject
  | .andThen first second, names, env, scope, next, x, count, subject, argument,
      closed, related, input, room, same => by
    simp only [Function.definitions] at room
    have after : (x.after (next + 1)).toNat = next.toNat + 1 + count :=
      input.after_succ (by omega)
    have inside := second.definitions_pos
    have start' : (x.after (next + 1) + 1).toNat = (x.after (next + 1)).toNat + 1 :=
      Allocates.toNat_succ (by omega)
    have lookup : Allocates 0 (return .lookup ⟨next⟩) :=
      .leaf (by simp [Program.nodeCount])
    -- The second function is applied to the application of the first, which is
    -- compiled as its input.
    show (Program.functionDef ⟨next⟩
      ((second.compileIn names
        (first.compileIn names (return .lookup ⟨next⟩))).program (x.after
        (next + 1)))
      (x.program (next + 1))).meaning settings scope subject = _
    rw [Program.meaning_functionDef, same]
    congr 1
    funext slot
    have bound : (Program.lookup ⟨next⟩).meaning settings
        ((⟨next⟩, slot) :: scope) subject = .ok slot := by
      show Rule.orFail _ (List.lookup _ _) = _
      rw [List.lookup_cons_self]
      rfl
    have inner := first.preserves settings closed.1
      (related.hide slot (x.after (next + 1) + 1) (by omega)) lookup
        (by omega) bound
    exact second.preserves settings closed.2
      (related.hide slot (x.after (next + 1)) (by omega))
      (first.allocates names lookup) (by omega) inner

end

/-! ## Whole expressions -/

/-- The program of a closed expression has the outcome that the expression
means, whatever the context binds. -/
theorem Expression.outcome_compile (settings : Settings) {e : Expression}
    (closed : e.Closed) (room : e.definitions < UInt64.size)
    (scope : List (Binding × Meaning)) (subject : Value) :
    e.compile.outcome settings scope subject = e.interpret settings subject := by
  have related : Related [] [] scope 0 := ⟨nofun, nofun⟩
  have closed : e.ClosedIn (([] : NameScope).map Prod.fst) := closed
  have zero : (0 : UInt64).toNat + e.definitions < UInt64.size := by
    rwa [UInt64.toNat_zero, Nat.zero_add]
  show ((e.compileIn []).program 0).meaning settings scope subject >>=
    Meaning.demand = _
  rw [e.preserves settings closed related zero subject]
  rfl

/-- A compiled expression ends in the value that interpreting the expression by
its names gives, under every configuration whose depth is at least the number of
the program's nodes. -/
theorem Expression.evaluate_compile (e : Expression) (closed : e.Closed)
    (config : EngineConfig)
    (deep : e.compile.nodeCount ≤ config.maxDepth.toNat + 1) (context : Context)
    (subject : Value) :
    e.compile.evaluate config context subject =
      e.interpret (Settings.ofConfig config context) subject := by
  have nodes : e.definitions < e.compile.nodeCount := (e.allocates []).nodes 0
  have word := config.maxDepth.toNat_lt_size
  -- A program within the limit has no more definitions than there are bindings.
  have room : e.definitions < UInt64.size := by omega
  rw [evaluate_eq_outcome deep]
  exact outcome_compile _ closed room context.meanings subject

/-- A deferred sum with the subject under a name that a second definition hides;
the second one reads it twice. -/
def Expression.hidingSum : Expression :=
  .letIn "x" (.defer (.binaryMath .add .integer .identity (.integer 1)))
    (.letIn "x" (.binaryMath .add .integer (.var "x") (.var "x"))
      (.pipe (.integer 0) (.var "x")))

theorem Expression.evaluate_compile_hidingSum :
    hidingSum.compile.evaluate {} {} (.integer 5) = .ok (.integer 12) := by
  have closed : hidingSum.Closed := by
    simp [hidingSum, Closed, ClosedIn, Function.ClosedIn, letIn, integer]
  have deep : hidingSum.compile.nodeCount ≤
    (EngineConfig.mk 256 none true).maxDepth.toNat + 1 := by decide
  rw [hidingSum.evaluate_compile closed {} deep {} (.integer 5)]
  rfl

end FieldExpr
