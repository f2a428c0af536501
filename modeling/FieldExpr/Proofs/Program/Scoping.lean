import FieldExpr.Proofs.Program.Free
import FieldExpr.Proofs.Program.Nodes
import Mathlib.Data.List.Nodup

/-!
# Programs in scope

A program whose definitions have bindings of their own and whose free bindings are
in scope passes the check, and the check then answers with the bindings it has met
(`checkScope_eq_ok`). Such a program mentions no binding but those that it defines.
-/

namespace FieldExpr

namespace Program

/-- Free in a node that neither makes nor reads a binding is what is free in
its children. -/
theorem Plain.freeIn_iff {p : Program} (plain : p.Plain) (b : Binding) :
    FreeIn b p ↔ ∃ c ∈ p.children, FreeIn b c := by
  cases p with
  | lookup b => exact plain.elim
  | functionDef b body input => exact plain.elim
  | _ => simp [FreeIn, children]

/-! ## The check -/

/-- A node that neither makes nor reads a binding passes the check if its
children do, one after the other. -/
theorem Plain.checkScope_eq {p : Program} (plain : p.Plain)
    (scope defined : List Binding) :
    p.checkScope scope defined =
      p.children.foldlM (fun defined c => c.checkScope scope defined) defined := by
  cases p with
  | lookup b => exact plain.elim
  | functionDef b body input => exact plain.elim
  | _ => simp [checkScope, children] <;> rfl

/-- What the check needs to know of a part to pass it, and what it answers. -/
def Passes (p : Program) : Prop :=
  ∀ {scope defined : List Binding}, (∀ b, FreeIn b p → b ∈ scope) →
    (p.definedBindings ++ defined).Nodup →
    p.checkScope scope defined = .ok (p.definedBindings.reverse ++ defined)

/-- Bindings that are distinct are so for each of two parts, the second
after the first. -/
theorem nodup_split {first second defined : List Binding}
    (nodup : (first ++ second ++ defined).Nodup) :
    (first ++ defined).Nodup ∧ (second ++ (first.reverse ++ defined)).Nodup := by
  simp only [List.nodup_append, List.nodup_reverse, List.mem_append,
    List.mem_reverse] at nodup ⊢
  grind

/-- Parts that pass do so one after the other. -/
theorem foldlM_checkScope {scope : List Binding} {parts : List Program}
    (pass : ∀ p ∈ parts, Passes p) :
    ∀ {defined : List Binding}, (∀ b, (∃ p ∈ parts, FreeIn b p) → b ∈ scope) →
      (parts.flatMap definedBindings ++ defined).Nodup →
      parts.foldlM (fun defined p => p.checkScope scope defined) defined =
        .ok ((parts.flatMap definedBindings).reverse ++ defined) := by
  induction parts with
  | nil => intro defined _ _; rfl
  | cons p rest ih =>
    intro defined free nodup
    rw [List.flatMap_cons] at nodup ⊢
    obtain ⟨first, second⟩ := nodup_split nodup
    have here := pass p List.mem_cons_self
      (fun b h => free b ⟨p, List.mem_cons_self, h⟩) first
    have after := ih (fun q mem => pass q (List.mem_cons_of_mem _ mem))
      (fun b ⟨q, mem, h⟩ => free b ⟨q, List.mem_cons_of_mem _ mem, h⟩) second
    rw [List.foldlM_cons, here, List.reverse_append, List.append_assoc]
    exact after

/-- A program that is in scope, and whose definitions are new and distinct,
passes the check. -/
theorem checkScope_eq_ok (p : Program) : Passes p := by
  induction p using byBinding with
  | lookup b =>
    intro scope defined free _
    exact if_pos (free b rfl)
  | functionDef b body input inputIH bodyIH =>
    intro scope defined free nodup
    rw [definedBindings_functionDef] at nodup ⊢
    -- The binding is taken before the input is checked, and in scope
    -- only in the body.
    have fresh : b ∉ defined :=
      fun mem => (List.nodup_cons.mp nodup).1 (List.mem_append_right _ mem)
    obtain ⟨first, second⟩ := nodup_split (List.nodup_middle.mpr nodup)
    unfold checkScope
    rw [if_neg fresh, inputIH (fun a h => free a (.inl h)) first]
    show body.checkScope (b :: scope) _ = _
    rw [bodyIH ?_ second]
    · simp
    · intro a h
      by_cases same : b = a
      · exact same ▸ List.mem_cons_self
      · exact List.mem_cons_of_mem _ (free a (.inr ⟨same, h⟩))
  | plain p plain ih =>
    intro scope defined free nodup
    rw [plain.definedBindings] at nodup ⊢
    rw [plain.checkScope_eq]
    exact foldlM_checkScope ih (fun b h => free b ((plain.freeIn_iff b).mpr h))
      nodup

/-- A program without free bindings, whose definitions have distinct bindings,
passes the check. -/
theorem validate_eq_ok {p : Program} (closed : ∀ b, ¬ FreeIn b p)
    (nodup : p.definedBindings.Nodup) :
    p.validate = .ok () := by
  unfold validate
  rw [checkScope_eq_ok p (fun b h => absurd h (closed b)) (by simpa using nodup)]
  rfl

/-! ## Mentioned bindings -/

/-- The program looks up the binding or defines it. -/
def Mentions (b : Binding) (p : Program) : Prop :=
  .lookup b ∈ p.parts ∨ b ∈ p.definedBindings

/-- A lookup reads a binding that is free in the program or defined by it. -/
theorem freeIn_or_mem_of_lookup {b : Binding} {p : Program}
    (part : .lookup b ∈ p.parts) :
    FreeIn b p ∨ b ∈ p.definedBindings := by
  induction p using byBinding with
  | lookup a =>
    cases List.mem_singleton.mp part
    exact .inl rfl
  | functionDef a body input inputIH bodyIH =>
    rw [parts_eq] at part
    rw [definedBindings_functionDef]
    have below : .lookup b ∈ input.parts ∨ .lookup b ∈ body.parts := by
      simpa [children] using part
    rcases below with part | part
    · rcases inputIH part with free | mem
      · exact .inl (.inl free)
      · exact .inr (by simp [mem])
    · rcases bodyIH part with free | mem
      · by_cases same : a = b
        · exact .inr (by simp [same])
        · exact .inl (.inr ⟨same, free⟩)
      · exact .inr (by simp [mem])
  | plain p plain ih =>
    rw [parts_eq] at part
    rcases List.mem_cons.mp part with same | below
    · exact (same ▸ plain : Plain (.lookup b)).elim
    · obtain ⟨child, mem, part⟩ := List.mem_flatMap.mp below
      rcases ih child mem part with free | defined
      · exact .inl ((plain.freeIn_iff b).mpr ⟨child, mem, free⟩)
      · exact .inr (mem_definedBindings_of_child mem defined)

/-- A program without free bindings mentions only what it defines. -/
theorem Mentions.mem_definedBindings {b : Binding} {p : Program}
    (mentions : p.Mentions b) (closed : ∀ b, ¬ FreeIn b p) :
    b ∈ p.definedBindings := by
  rcases mentions with part | mem
  · exact (freeIn_or_mem_of_lookup part).resolve_left (closed b)
  · exact mem

end Program

end FieldExpr
