import FieldExpr.Proofs.Evaluation.Isolation
import FieldExpr.Proofs.Evaluation.Renaming
import FieldExpr.Proofs.Expression.Numbering

/-!
# Where the numbering starts

Compiled on a counter that is further on, an expression gives the same program
with all its bindings further on by as much. The counter is a word and may wrap
around on the way, and the bindings then do so with it. A compiled program has
no free bindings, so neither the numbers nor the context make a difference to
what it evaluates to.
-/

namespace FieldExpr

/-- The binding so many numbers further on. -/
def Binding.shift (amount : UInt64) (b : Binding) : Binding :=
  ⟨b.id + amount⟩

theorem Binding.shift_injective (amount : UInt64) :
    Function.Injective (shift amount) := by
  rintro ⟨a⟩ ⟨b⟩ same
  have ids : a + amount = b + amount := congrArg Binding.id same
  exact congrArg Binding.mk ((UInt64.add_left_inj amount).mp ids)

/-- A shift that stays within a word adds numbers. -/
theorem Binding.toNat_shift {amount : UInt64} {b : Binding}
    (room : b.id.toNat + amount.toNat < UInt64.size) :
    (b.shift amount).id.toNat = b.id.toNat + amount.toNat := by
  show (b.id + amount).toNat = _
  rw [UInt64.toNat_add]
  exact Nat.mod_eq_of_lt room

/-- The names in scope, with their bindings further on. -/
def NameScope.shift (amount : UInt64) (names : NameScope) : NameScope :=
  names.map fun entry => (entry.1, entry.2.shift amount)

theorem NameScope.lookup_shift (amount : UInt64) (names : NameScope)
    (name : String) :
    List.lookup name (names.shift amount) =
      (List.lookup name names).map (Binding.shift amount) :=
  lookup_map_values (Binding.shift amount) names name

theorem Program.rename_asBranch (f : Binding → Binding) (p : Program) :
    (p.rename f).asBranch = p.asBranch.rename f := by
  cases p <;> rfl

theorem Program.freeIn_asBranch {p : Program} {b : Binding}
    (free : FreeIn b p.asBranch) : FreeIn b p := by
  cases p <;> exact free

/-- Two compilations of which the second starts so many numbers further on: it
ends as many further on, with the program's bindings further on too. In the
program only what is `bound` is free. -/
structure Renumbers (amount : UInt64) (bound : Binding → Prop)
    (x y : Compiling Program) : Prop where
  program : ∀ next, y.program (next + amount) =
    (x.program next).rename (.shift amount)
  counter : ∀ next, y.after (next + amount) = x.after next + amount
  free : ∀ next b, Program.FreeIn b (x.program next) → bound b

namespace Renumbers

variable {amount : UInt64} {bound : Binding → Prop}
    {x x' y y' z z' : Compiling Program}

theorem leaf {p : Program} (closed : p.children = [] ∧ p.Plain) :
    Renumbers amount bound (return p) (return p) := by
  refine ⟨fun _ => ?_, fun _ => rfl, fun _ b free => ?_⟩
  · show p = p.rename _
    cases p <;> simp_all [Program.children, Program.Plain, Program.rename]
  · obtain ⟨c, mem, _⟩ := (closed.2.freeIn_iff b).mp free
    rw [closed.1] at mem
    cases mem

theorem lookup {b : Binding} (inScope : bound b) :
    Renumbers amount bound (return .lookup b) (return .lookup (b.shift amount)) :=
  ⟨fun _ => rfl, fun _ => rfl, fun _ _ free => free ▸ inScope⟩

theorem one {node : Program → Program} (first : Renumbers amount bound x x')
    (rename : ∀ p, node (p.rename (.shift amount)) =
      (node p).rename (.shift amount))
    (free : ∀ p b, (node p).FreeIn b → p.FreeIn b) :
    Renumbers amount bound (do return node (← x)) (do return node (← x')) where
  program next := by
    show node (x'.program (next + amount)) = (node (x.program next)).rename _
    rw [first.program, rename]
  counter := first.counter
  free next b mem := first.free next b (free _ b mem)

theorem two {node : Program → Program → Program}
    (first : Renumbers amount bound x x') (second : Renumbers amount bound y y')
    (rename : ∀ p q,
      node (p.rename (.shift amount)) (q.rename (.shift amount)) =
      (node p q).rename (.shift amount))
    (free : ∀ p q b, (node p q).FreeIn b → p.FreeIn b ∨ q.FreeIn b) :
    Renumbers amount bound (do let p ← x; let q ← y; return node p q)
      (do let p ← x'; let q ← y'; return node p q) where
  program next := by
    show node (x'.program (next + amount)) (y'.program (x'.after (next + amount))) =
      (node (x.program next) (y.program (x.after next))).rename _
    rw [first.program, first.counter, second.program, rename]
  counter next := by
    show y'.after (x'.after (next + amount)) = y.after (x.after next) + amount
    rw [first.counter, second.counter]
  free next b mem := by
    rcases free _ _ b mem with mem | mem
    · exact first.free next b mem
    · exact second.free _ b mem

/-- Deferring the branches neither makes nor reads a binding. -/
theorem choice (condition : Renumbers amount bound x x')
    (onTrue : Renumbers amount bound y y') (onFalse : Renumbers amount bound z z') :
    Renumbers amount bound
      (do
        let c ← x
        let t ← y
        let f ← z
        return .diverge c t.asBranch f.asBranch)
      (do
        let c ← x'
        let t ← y'
        let f ← z'
        return .diverge c t.asBranch f.asBranch) where
  program next := by
    show Program.diverge (x'.program (next + amount))
      (y'.program (x'.after (next + amount))).asBranch
      (z'.program (y'.after (x'.after (next + amount)))).asBranch = _
    rw [condition.program, condition.counter, onTrue.program, onTrue.counter,
      onFalse.program, Program.rename_asBranch, Program.rename_asBranch]
    rfl
  counter next := by
    show z'.after (y'.after (x'.after (next + amount))) =
      z.after (y.after (x.after next)) + amount
    rw [condition.counter, onTrue.counter, onFalse.counter]
  free next b mem := by
    rcases mem with mem | mem | mem
    · exact condition.free _ b mem
    · exact onTrue.free _ b (Program.freeIn_asBranch mem)
    · exact onFalse.free _ b (Program.freeIn_asBranch mem)

/-- A definition takes the next binding, before its input is compiled, and binds
it in its body. -/
theorem definition {body body' : Binding → Compiling Program}
    (input : Renumbers amount bound x x')
    (bodies : ∀ b, Renumbers amount (fun a => b = a ∨ bound a) (body b)
      (body' (b.shift amount))) :
    Renumbers amount bound
      (do
        let b ← Compiling.allocate
        let p ← x
        let q ← body b
        return .functionDef b q p)
      (do
        let b ← Compiling.allocate
        let p ← x'
        let q ← body' b
        return .functionDef b q p) where
  program next := by
    have start : next + amount + 1 = next + 1 + amount := by ac_rfl
    show Program.functionDef (Binding.shift amount ⟨next⟩)
      ((body' (Binding.shift amount ⟨next⟩)).program
        (x'.after (next + amount + 1))) (x'.program (next + amount + 1)) = _
    rw [start, input.program, input.counter, (bodies ⟨next⟩).program]
    rfl
  counter next := by
    have start : next + amount + 1 = next + 1 + amount := by ac_rfl
    show (body' (Binding.shift amount ⟨next⟩)).after
      (x'.after (next + amount + 1)) = _
    rw [start, input.counter, (bodies ⟨next⟩).counter]
    rfl
  free next b mem := by
    rcases mem with mem | ⟨other, mem⟩
    · exact input.free _ b mem
    · exact ((bodies ⟨next⟩).free _ b mem).resolve_left other

end Renumbers

mutual

/-- Compiling an expression further on gives its program further on. -/
theorem Expression.renumbers (amount : UInt64) :
    (e : Expression) → ∀ {names : NameScope} {bound : Binding → Prop},
    e.ClosedIn (names.map Prod.fst) → (∀ entry ∈ names, bound entry.2) →
    Renumbers amount bound (e.compileIn names) (e.compileIn (names.shift amount))
  | .identity, _, _, _, _ => .leaf ⟨rfl, trivial⟩
  | .var name, names, bound, closed, scope => by
    obtain ⟨b, found⟩ := exists_lookup closed
    show Renumbers amount bound
      (return .lookup ((List.lookup name names).getD .last))
      (return .lookup ((List.lookup name (names.shift amount)).getD .last))
    rw [NameScope.lookup_shift, found]
    exact .lookup (scope (name, b) (mem_of_lookup found))
  | .literal _ _, _, _, _, _ => .leaf ⟨rfl, trivial⟩
  | .immediate inner, _, _, closed, scope =>
    .one (inner.renumbers amount closed scope) (fun _ => rfl) fun _ _ => id
  | .defer inner, _, _, closed, scope =>
    .one (inner.renumbers amount closed scope) (fun _ => rfl) fun _ _ => id
  | .apply function argument, _, _, closed, scope =>
    function.renumbers amount closed.2 scope
      (argument.renumbers amount closed.1 scope)
  | .pipe left right, _, _, closed, scope =>
    .two (left.renumbers amount closed.1 scope)
      (right.renumbers amount closed.2 scope) (fun _ _ => rfl) fun _ _ _ => id
  | .equalTo _ left right, _, _, closed, scope =>
    .two (left.renumbers amount closed.1 scope)
      (right.renumbers amount closed.2 scope) (fun _ _ => rfl) fun _ _ _ => id
  | .binaryMath _ _ left right, _, _, closed, scope =>
    .two (left.renumbers amount closed.1 scope)
      (right.renumbers amount closed.2 scope) (fun _ _ => rfl) fun _ _ _ => id
  | .unaryMath _ _ operand, _, _, closed, scope =>
    .one (operand.renumbers amount closed scope) (fun _ => rfl) fun _ _ => id
  | .binaryLogical _ left right, _, _, closed, scope =>
    .two (left.renumbers amount closed.1 scope)
      (right.renumbers amount closed.2 scope) (fun _ _ => rfl) fun _ _ _ => id
  | .not operand, _, _, closed, scope =>
    .one (operand.renumbers amount closed scope) (fun _ => rfl) fun _ _ => id
  | .diverge condition onTrue onFalse, _, _, closed, scope =>
    .choice (condition.renumbers amount closed.1 scope)
      (onTrue.renumbers amount closed.2.1 scope)
      (onFalse.renumbers amount closed.2.2 scope)
  | .tupleGetIndex tuple _, _, _, closed, scope =>
    .one (tuple.renumbers amount closed scope) (fun _ => rfl) fun _ _ => id

/-- Applying a function further on gives the program of the application further
on. -/
theorem Function.renumbers (amount : UInt64) :
    (f : Function) → ∀ {names : NameScope} {bound : Binding → Prop}
    {x x' : Compiling Program}, f.ClosedIn (names.map Prod.fst) →
    (∀ entry ∈ names, bound entry.2) →
    Renumbers amount bound x x' →
    Renumbers amount bound (f.compileIn names x)
      (f.compileIn (names.shift amount) x')
  | .named parameter body, names, bound, x, x', closed, scope, input =>
    .definition input fun b => by
      have closed : body.ClosedIn
        (((parameter, b) :: names : NameScope).map Prod.fst) := closed
      refine body.renumbers amount closed fun entry mem => ?_
      rcases List.mem_cons.mp mem with rfl | mem
      · exact .inl rfl
      · exact .inr (scope entry mem)
  | .andThen first second, names, bound, x, x', closed, scope, input =>
    .definition input fun b => by
      have scope : ∀ entry ∈ names, b = entry.2 ∨ bound entry.2 :=
        fun entry mem => .inr (scope entry mem)
      have read : Renumbers amount (fun a => b = a ∨ bound a) _ _ :=
        .lookup (b := b) (.inl rfl)
      have inner := first.renumbers amount closed.1 scope read
      exact second.renumbers amount closed.2 scope inner

end

namespace Expression

variable {e : Expression}

theorem renumbers_closed (closed : e.Closed) (amount : UInt64) :
    Renumbers amount (fun _ => False) (e.compileIn []) (e.compileIn []) := by
  have closed : e.ClosedIn (([] : NameScope).map Prod.fst) := closed
  exact e.renumbers amount closed nofun

theorem compileWith_eq_rename (closed : e.Closed) (allocated : UInt64) :
    (e.compileWith allocated).1 = e.compile.rename (.shift allocated) := by
  have program := (renumbers_closed closed allocated).program 0
  rw [UInt64.zero_add] at program
  exact program

theorem not_freeIn_compileWith (closed : e.Closed) (allocated : UInt64)
    (b : Binding) :
    ¬ (e.compileWith allocated).1.FreeIn b :=
  (renumbers_closed closed allocated).free allocated b

/-- A shared counter makes no difference to an evaluation, and nor does what its
context binds to the numbers that the program happens to have. -/
theorem evaluationUnder_compileWith (closed : e.Closed) (allocated : UInt64)
    (settings : Settings) (context : Context) (subject : Value) :
    ((e.compileWith allocated).1.evaluationUnder settings context subject).result =
      (e.compile.evaluationUnder settings context subject).result := by
  have context_alike :
      ((e.compileWith allocated).1.evaluationUnder settings context
        subject).result =
      ((e.compileWith allocated).1.evaluationUnder settings
        (context.rename (.shift allocated)) subject).result :=
    (Program.evaluationUnder_of_agree settings
      (fun b free => absurd free (not_freeIn_compileWith closed allocated b))
        fun _ => rfl).1
  rw [context_alike, compileWith_eq_rename closed,
    (evaluationUnder_rename (Binding.shift_injective allocated) settings
      e.compile context subject).1]
  cases result : (e.compile.evaluationUnder settings context subject).result with
  | ok v => rfl
  | error error =>
    cases error with
    | unboundBinding b =>
      exact absurd (unbound_of_evaluationUnder result).1
        (not_freeIn_compileWith closed 0 b)
    | _ => rfl

/-- The numbers of bindings carry no meaning. An expression that is compiled
after `allocated` bindings gives the program that it gives on its own with every
binding `allocated` further on. A program evaluates as it does with its bindings
and those of its context renamed, up to the binding that an error names. So a
compiled program evaluates alike wherever its numbering starts. -/
theorem evaluate_renumbered :
    (∀ e : Expression, e.Closed → ∀ allocated : UInt64,
      (e.compileWith allocated).1 = e.compile.rename (.shift allocated) ∧
        (allocated.toNat + e.definitions < UInt64.size → ∀ b, e.compile.Mentions b →
          (b.shift allocated).id.toNat = b.id.toNat + allocated.toNat)) ∧
    (∀ (p : Program) (f : Binding → Binding), Function.Injective f →
      ∀ (config : EngineConfig) (context : Context) (subject : Value),
        (p.rename f).evaluate config (context.rename f) subject =
          (p.evaluate config context subject).mapError (EvaluationError.rename f)) ∧
    (∀ e : Expression, e.Closed →
      ∀ (allocated : UInt64) (config : EngineConfig) (context : Context)
      (subject : Value),
      (e.compileWith allocated).1.evaluate config context subject =
        e.compile.evaluate config context subject) := by
  refine ⟨?_, ?_, ?_⟩
  · intro e closed allocated
    refine ⟨compileWith_eq_rename closed allocated, fun room b mentions => ?_⟩
    have own : (0 : UInt64).toNat + e.definitions < UInt64.size := by
      rw [UInt64.toNat_zero]
      omega
    obtain ⟨_, small⟩ := (numbered_compileWith closed own).range mentions
    rw [UInt64.toNat_zero] at small
    exact Binding.toNat_shift (by omega)
  · intro p f injective config context subject
    exact (evaluationUnder_rename injective (.ofConfig config context) p context
      subject).1
  · intro e closed allocated config context subject
    exact evaluationUnder_compileWith closed allocated
      (.ofConfig config context) context subject

/-- The bindings change places with a neighbour, an even number with the odd
one behind it. -/
def swapped (b : Binding) : Binding :=
  ⟨b.id ^^^ 1⟩

theorem swapped_injective : Function.Injective swapped := by
  refine Function.LeftInverse.injective (g := swapped) fun ⟨id⟩ => ?_
  show Binding.mk (id ^^^ 1 ^^^ 1) = ⟨id⟩
  rw [UInt64.xor_assoc, UInt64.xor_self, UInt64.xor_zero]

/-- Whether one value of the context is greater than the other. -/
def secondGreater : Program :=
  .binaryMath .greaterThan .integer (.lookup ⟨3⟩) (.lookup ⟨2⟩)

/-- A function that is compiled after five other bindings, a context with two
bindings that change places, and one that lacks the second of them. -/
theorem evaluate_renumbered_appliedTwice :
    (appliedTwice.compileWith 5).1 = appliedTwice.compile.rename (.shift 5) ∧
      (∀ b, appliedTwice.compile.Mentions b →
        (b.shift 5).id.toNat = b.id.toNat + 5) ∧
      (∀ context, (appliedTwice.compileWith 5).1.evaluate {} context .unit =
        appliedTwice.compile.evaluate {} context .unit) ∧
      (secondGreater.rename swapped).evaluate {}
        (Context.rename swapped
          { bindings := [(⟨3⟩, .integer 7), (⟨2⟩, .integer 4)] }) .unit =
          .ok (.boolean true) ∧
      (secondGreater.rename swapped).evaluate {}
        (Context.rename swapped { bindings := [(⟨2⟩, .integer 4)] }) .unit =
        .error (.unboundBinding ⟨2⟩) := by
  have closed : appliedTwice.Closed := by
    simp [appliedTwice, Closed, ClosedIn, Function.ClosedIn, boolean, integer]
  obtain ⟨compiled, renamed, shared⟩ := evaluate_renumbered
  obtain ⟨same, further⟩ := compiled appliedTwice closed 5
  refine ⟨same, further (by decide),
    fun context => shared _ closed 5 {} context .unit, ?_, ?_⟩
  · rw [renamed secondGreater swapped swapped_injective]
    rfl
  · rw [renamed secondGreater swapped swapped_injective]
    rfl

end Expression

end FieldExpr
