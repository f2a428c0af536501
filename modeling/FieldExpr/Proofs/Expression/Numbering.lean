import FieldExpr.Proofs.Expression.Allocation
import FieldExpr.Proofs.Lookup
import FieldExpr.Proofs.Program.Scoping

/-!
# Compiled programs are well formed

The definitions of a compiled program, in the order of its nodes, have the
bindings that its compilation allocated, in the order of allocation; its
lookups stand in the bodies of their definitions, and its branches are
deferred. The counter only grows, so programs that are compiled one after
another share no binding.
-/

namespace FieldExpr

namespace Program

/-- Every branch in the program is deferred. -/
def BranchesDeferred (p : Program) : Prop :=
  ∀ condition onTrue onFalse, .diverge condition onTrue onFalse ∈ p.parts →
    (∃ inner, onTrue = .defer inner) ∧ ∃ inner, onFalse = .defer inner

/-- The branches of a program are deferred if those of its children are, and its
own. -/
theorem BranchesDeferred.of_children {p : Program}
    (children : ∀ c ∈ p.children, c.BranchesDeferred)
    (own : ∀ condition onTrue onFalse, p = .diverge condition onTrue onFalse →
      (∃ inner, onTrue = .defer inner) ∧
      ∃ inner, onFalse = .defer inner) : p.BranchesDeferred := by
  intro condition onTrue onFalse part
  rw [parts_eq] at part
  rcases List.mem_cons.mp part with same | below
  · exact own _ _ _ same.symm
  · obtain ⟨child, mem, part⟩ := List.mem_flatMap.mp below
    exact children child mem _ _ _ part

theorem exists_asBranch (p : Program) : ∃ inner, p.asBranch = .defer inner := by
  unfold asBranch
  split
  · exact ⟨_, rfl⟩
  · exact ⟨_, rfl⟩

/-- A program whose definitions have the `count` bindings from `next` on, in
order, whose branches are deferred, and in which only what is `bound` is free. -/
structure Numbered (next count : Nat) (bound : Binding → Prop) (p : Program) :
    Prop where
  bindings : p.definedBindings.map (fun b => b.id.toNat) = List.range' next count
  free : ∀ b, FreeIn b p → bound b
  branches : p.BranchesDeferred

/-- Programs that are numbered one after the other. -/
inductive AllNumbered (bound : Binding → Prop) : Nat → Nat → List Program → Prop
  | nil {next} : AllNumbered bound next 0 []
  | cons {next i j p rest} : p.Numbered next i bound →
    AllNumbered bound (next + i) j rest →
    AllNumbered bound next (i + j) (p :: rest)

section

variable {next i j : Nat} {bound : Binding → Prop}

theorem AllNumbered.bindings {parts : List Program}
    (numbered : AllNumbered bound next i parts) :
    (parts.flatMap definedBindings).map (fun b => b.id.toNat) =
      List.range' next i := by
  induction numbered with
  | nil => rfl
  | cons first _ ih =>
    rw [List.flatMap_cons, List.map_append, first.bindings, ih,
      List.range'_append_1]

theorem AllNumbered.mem {parts : List Program}
    (numbered : AllNumbered bound next i parts) {p : Program}
    (mem : p ∈ parts) : (∀ b, FreeIn b p → bound b) ∧ p.BranchesDeferred := by
  induction numbered with
  | nil => cases mem
  | cons first _ ih =>
    rcases List.mem_cons.mp mem with rfl | mem
    · exact ⟨first.free, first.branches⟩
    · exact ih mem

namespace Numbered

/-- A node that neither makes nor reads a binding is numbered as its
children are. -/
theorem plain {p : Program} (plain : p.Plain)
    (children : AllNumbered bound next i p.children)
    (own : ∀ condition onTrue onFalse, p = .diverge condition onTrue onFalse →
      (∃ inner, onTrue = .defer inner) ∧
      ∃ inner, onFalse = .defer inner) : p.Numbered next i bound where
  bindings := by
    rw [plain.definedBindings]
    exact children.bindings
  free b h := by
    obtain ⟨c, mem, free⟩ := (plain.freeIn_iff b).mp h
    exact (children.mem mem).1 b free
  branches := .of_children (fun _ mem => (children.mem mem).2) own

/-- A lookup defines nothing, and is free in itself. -/
theorem lookup {b : Binding} (inScope : bound b) :
    (Program.lookup b).Numbered next 0 bound where
  bindings := rfl
  free _ same := same ▸ inScope
  branches := .of_children nofun nofun

/-- A definition comes before those in its input, and these before those in its
body. -/
theorem functionDef {b : Binding} {body input : Program} (own : b.id.toNat = next)
    (inputs : input.Numbered (next + 1) i bound)
    (bodies : body.Numbered (next + 1 + i) j (fun a => b = a ∨ bound a)) :
    (Program.functionDef b body input).Numbered next (i + (j + 1)) bound where
  bindings := by
    rw [definedBindings_functionDef, List.map_cons, List.map_append,
      inputs.bindings, bodies.bindings, List.range'_append_1, own]
    exact (List.range'_succ ..).symm
  free a h := by
    rcases h with free | ⟨other, free⟩
    · exact inputs.free a free
    · exact (bodies.free a free).resolve_left other
  branches := .of_children
    (by simpa [children] using ⟨inputs.branches, bodies.branches⟩) nofun

/-- Deferring a branch adds a node and no binding. -/
theorem asBranch {p : Program} (numbered : p.Numbered next i bound) :
    p.asBranch.Numbered next i bound := by
  unfold Program.asBranch
  split
  · exact numbered
  · exact .plain trivial (.cons numbered .nil) nofun

end Numbered

/-- A numbered program without free bindings passes the check of its scopes. -/
theorem Numbered.validate {p : Program}
    (numbered : p.Numbered next i fun _ => False) : p.validate = .ok () := by
  refine validate_eq_ok numbered.free (List.Nodup.of_map (fun b => b.id.toNat) ?_)
  rw [numbered.bindings]
  exact List.nodup_range'

/-- A numbered program without free bindings mentions only bindings in its range. -/
theorem Numbered.range {p : Program}
    (numbered : p.Numbered next i fun _ => False) {b : Binding}
    (mentions : p.Mentions b) : next ≤ b.id.toNat ∧ b.id.toNat < next + i := by
  have mem := List.mem_map_of_mem (f := fun b : Binding => b.id.toNat)
    (mentions.mem_definedBindings numbered.free)
  rw [numbered.bindings] at mem
  exact List.mem_range'_1.mp mem

end

end Program

/-- A compilation that numbers the definitions of its program from its counter
on. -/
def Numbers (count : Nat) (bound : Binding → Prop) (x : Compiling Program) : Prop :=
  ∀ next : UInt64, next.toNat + count < UInt64.size →
    (x.program next).Numbered next.toNat count bound

section

variable {x y z : Compiling Program} {i j k : Nat} {bound : Binding → Prop}
    {next : UInt64}

/-- What is compiled second gets the bindings after those of what is
compiled first. -/
theorem Numbers.after (second : Numbers j bound y) (first : Allocates i x)
    (room : next.toNat + (i + j) < UInt64.size) :
    (y.program (x.after next)).Numbered (next.toNat + i) j bound := by
  have after := first.counter next (by omega)
  rw [← after]
  exact second _ (by omega)

theorem Numbers.two (first : Numbers i bound x) (allocates : Allocates i x)
    (second : Numbers j bound y) (room : next.toNat + (i + j) < UInt64.size) :
    Program.AllNumbered bound next.toNat (i + j)
      [x.program next, y.program (x.after next)] :=
  .cons (first next (by omega)) (.cons (second.after allocates room) .nil)

/-- A definition takes the next binding, before its input is compiled. -/
theorem Numbers.definition {body : Binding → Compiling Program}
    (input : Numbers i bound x) (allocates : Allocates i x)
    (bodies : ∀ b, Numbers j (fun a => b = a ∨ bound a) (body b)) :
    Numbers (i + (j + 1)) bound (do
      let b ← Compiling.allocate
      let p ← x
      let q ← body b
      return .functionDef b q p) := by
  intro next room
  have start : (next + 1).toNat = next.toNat + 1 := Allocates.toNat_succ (by omega)
  have inputs := input (next + 1) (by omega)
  have inside :=
    (bodies ⟨next⟩).after allocates (show (next + 1).toNat + _ < _ by omega)
  rw [start] at inputs inside
  exact .functionDef rfl inputs inside

end

mutual

/-- Compiling an expression numbers its definitions, and leaves free only what
its names are bound to. -/
theorem Expression.numbers :
    (e : Expression) → ∀ {names : NameScope} {bound : Binding → Prop},
    e.ClosedIn (names.map Prod.fst) → (∀ entry ∈ names, bound entry.2) →
    Numbers e.definitions bound (e.compileIn names)
  | .identity, _, _, _, _ => fun _ _ => .plain trivial .nil nofun
  | .var name, names, bound, closed, scope => fun next _ => by
    obtain ⟨b, found⟩ := exists_lookup closed
    show (Program.lookup ((names.lookup name).getD .last)).Numbered
      next.toNat 0 bound
    rw [found]
    exact .lookup (scope (name, b) (mem_of_lookup found))
  | .literal _ _, _, _, _, _ => fun _ _ => .plain trivial .nil nofun
  | .immediate inner, _, _, closed, scope => fun next room =>
    .plain trivial (.cons (inner.numbers closed scope next room) .nil) nofun
  | .defer inner, _, _, closed, scope => fun next room =>
    .plain trivial (.cons (inner.numbers closed scope next room) .nil) nofun
  | .apply function argument, names, _, closed, scope =>
    function.numbers closed.2 scope (argument.allocates names)
      (argument.numbers closed.1 scope)
  | .pipe left right, names, _, closed, scope => fun _ room =>
    .plain trivial
      ((left.numbers closed.1 scope).two (left.allocates names)
        (right.numbers closed.2 scope) room) nofun
  | .equalTo _ left right, names, _, closed, scope => fun _ room =>
    .plain trivial
      ((left.numbers closed.1 scope).two (left.allocates names)
        (right.numbers closed.2 scope) room) nofun
  | .binaryMath _ _ left right, names, _, closed, scope => fun _ room =>
    .plain trivial
      ((left.numbers closed.1 scope).two (left.allocates names)
        (right.numbers closed.2 scope) room) nofun
  | .unaryMath _ _ operand, _, _, closed, scope => fun next room =>
    .plain trivial (.cons (operand.numbers closed scope next room) .nil) nofun
  | .binaryLogical _ left right, names, _, closed, scope => fun _ room =>
    .plain trivial
      ((left.numbers closed.1 scope).two (left.allocates names)
        (right.numbers closed.2 scope) room) nofun
  | .not operand, _, _, closed, scope => fun next room =>
    .plain trivial (.cons (operand.numbers closed scope next room) .nil) nofun
  | .diverge condition onTrue onFalse, names, bound, closed, scope =>
    fun next room => by
    simp only [Expression.definitions, Nat.add_assoc] at room ⊢
    have first := condition.numbers closed.1 scope next (by omega)
    have after := (condition.allocates names).counter next (by omega)
    have second :=
      onTrue.numbers closed.2.1 scope ((condition.compileIn names).after next)
        (by omega)
    have third := (onFalse.numbers closed.2.2 scope).after (onTrue.allocates names)
      (show ((condition.compileIn names).after next).toNat + _ < _ by omega)
    rw [after] at second third
    refine .plain trivial
      (.cons first (.cons second.asBranch (.cons third.asBranch .nil))) ?_
    rintro _ _ _ ⟨⟩
    exact ⟨Program.exists_asBranch _, Program.exists_asBranch _⟩
  | .tupleGetIndex tuple _, _, _, closed, scope => fun next room =>
    .plain trivial (.cons (tuple.numbers closed scope next room) .nil) nofun

/-- Applying a function numbers the definition of its argument before those of
the input and of its body. -/
theorem Function.numbers :
    (f : Function) →
    ∀ {names : NameScope} {bound : Binding → Prop} {x : Compiling Program}
    {count : Nat}, f.ClosedIn (names.map Prod.fst) →
    (∀ entry ∈ names, bound entry.2) → Allocates count x →
    Numbers count bound x →
    Numbers (count + f.definitions) bound (f.compileIn names x)
  | .named parameter body, names, bound, x, count, closed, scope,
      allocates, input =>
    .definition input allocates fun b => by
      have closed : body.ClosedIn
        (((parameter, b) :: names : NameScope).map Prod.fst) := closed
      refine body.numbers closed fun entry mem => ?_
      rcases List.mem_cons.mp mem with rfl | mem
      · exact .inl rfl
      · exact .inr (scope entry mem)
  | .andThen first second, names, bound, x, count, closed, scope,
      allocates, input =>
    .definition input allocates fun b => by
      have scope : ∀ entry ∈ names, b = entry.2 ∨ bound entry.2 :=
        fun entry mem => .inr (scope entry mem)
      have argument : Allocates 0 (return .lookup b) :=
        .leaf (by simp [Program.nodeCount])
      have read : Numbers 0 (fun a => b = a ∨ bound a) (return .lookup b) :=
        fun _ _ => .lookup (.inl rfl)
      have inner := first.numbers closed.1 scope argument read
      have allocates := first.allocates names argument
      rw [Nat.zero_add] at inner allocates
      exact second.numbers closed.2 scope allocates inner

end

namespace Expression

/-- The programs of expressions that are compiled one after another, and the
number of bindings allocated in the end. -/
def compileAll : List Expression → UInt64 → List Program × UInt64
  | [], allocated => ([], allocated)
  | e :: rest, allocated =>
    let first := e.compileWith allocated
    let others := compileAll rest first.2
    (first.1 :: others.1, others.2)

theorem numbered_compileWith {e : Expression} (closed : e.Closed)
    {allocated : UInt64} (room : allocated.toNat + e.definitions < UInt64.size) :
    (e.compileWith allocated).1.Numbered allocated.toNat e.definitions fun _ =>
      False := by
  have closed : e.ClosedIn (([] : NameScope).map Prod.fst) := closed
  exact e.numbers closed nofun allocated room

/-- A program that is compiled later has its range of bindings further on. -/
theorem numbered_of_mem_compileAll {es : List Expression}
    (closed : ∀ e ∈ es, e.Closed) : ∀ allocated : UInt64,
    allocated.toNat + (es.map definitions).sum < UInt64.size →
    ∀ p ∈ (compileAll es allocated).1, ∃ next count, allocated.toNat ≤ next ∧
    p.Numbered next count fun _ => False := by
  induction es with
  | nil =>
    intro allocated _ p mem
    cases mem
  | cons e rest ih =>
    intro allocated room p mem
    rw [List.map_cons, List.sum_cons] at room
    have after : (e.compileWith allocated).2.toNat =
        allocated.toNat + e.definitions :=
      (e.allocates []).counter allocated (by omega)
    rcases List.mem_cons.mp mem with same | mem
    · subst same
      exact ⟨_, _, Nat.le_refl _,
        numbered_compileWith (closed e List.mem_cons_self) (by omega)⟩
    · obtain ⟨next, count, le, numbered⟩ :=
        ih (fun f mem => closed f (List.mem_cons_of_mem _ mem))
          (e.compileWith allocated).2 (by omega) p mem
      exact ⟨next, count, by omega, numbered⟩

/-- Compiling a closed expression gives a program that passes the check of its
scopes, whose definitions have the bindings that were allocated for them, in order,
and whose branches are deferred. Programs that are compiled after it share no
binding with it. The counter is a word, so it must have room for the bindings. -/
theorem wellFormed_compileWith (e : Expression) (closed : e.Closed)
    (allocated : UInt64) (room : allocated.toNat + e.definitions < UInt64.size) :
    (e.compileWith allocated).1.validate = .ok () ∧
      (e.compileWith allocated).1.definedBindings.map (fun b => b.id.toNat) =
        List.range' allocated.toNat e.definitions ∧
      (e.compileWith allocated).1.BranchesDeferred ∧
      (e.compileWith allocated).2.toNat = allocated.toNat + e.definitions ∧
      ∀ later : List Expression, (∀ f ∈ later, f.Closed) →
        allocated.toNat + e.definitions + (later.map definitions).sum <
          UInt64.size →
        ∀ q ∈ (compileAll later (e.compileWith allocated).2).1, ∀ b,
          (e.compileWith allocated).1.Mentions b → ¬ q.Mentions b := by
  have numbered := numbered_compileWith closed room
  have counter : (e.compileWith allocated).2.toNat =
      allocated.toNat + e.definitions :=
    (e.allocates []).counter allocated room
  refine ⟨numbered.validate, numbered.bindings, numbered.branches, counter, ?_⟩
  intro later closed' room' q mem b mentions mentions'
  obtain ⟨next, count, le, numbered'⟩ :=
    numbered_of_mem_compileAll closed' _ (by omega) q mem
  have here := numbered.range mentions
  have there := numbered'.range mentions'
  omega

/-- A function that is applied to its own result, on a branch. -/
def appliedTwice : Expression :=
  let next := Function.named "x" (.binaryMath .add .integer (.var "x") (.integer 1))
  .diverge (.boolean true) (.apply (.andThen next next) (.integer 40)) .identity

/-- Compiled with five bindings allocated it takes the next three, and compiled
again it takes three others. -/
theorem wellFormed_appliedTwice :
    (appliedTwice.compileWith 5).1.validate = .ok () ∧
      (appliedTwice.compileWith 5).1.definedBindings.map (fun b => b.id.toNat) =
        [5, 6, 7] ∧
      (appliedTwice.compileWith 5).2 = 8 ∧
      ∀ b, (appliedTwice.compileWith 5).1.Mentions b →
      ¬ (appliedTwice.compileWith 8).1.Mentions b := by
  have closed : appliedTwice.Closed := by
    simp [appliedTwice, Closed, ClosedIn, Function.ClosedIn, boolean, integer]
  obtain ⟨valid, bindings, _, _, apart⟩ :=
    appliedTwice.wellFormed_compileWith closed 5 (by decide)
  refine ⟨valid, bindings, rfl,
    apart [appliedTwice] ?_ (by decide) _ List.mem_cons_self⟩
  simpa using closed

end Expression

end FieldExpr
