import FieldExpr.Program.Basic
import Mathlib.Algebra.GroupWithZero.Nat
import Mathlib.Data.List.Basic
import Mathlib.Data.List.Nodup

/-!
# Nodes, positions and parts

The nodes of a program are its root and then the nodes of its children in order
(`nodes_eq`), so facts about them are proved by induction on children
(`byChildren`) and not once for each kind of node. Each node has a position of
its own, which ends in that of any node above it. The parts are the nodes
without their positions.
-/

namespace FieldExpr

namespace Program

/-- What holds of a program as soon as it holds of its children holds of
all programs. -/
theorem byChildren {motive : Program → Prop}
    (step : ∀ p, (∀ c ∈ p.children, motive c) → motive p)
    (p : Program) : motive p := by
  induction p with
  | _ => exact step _ (by simp_all [children])

/-- The nodes are the root and then those of the children, each below its number. -/
theorem nodes_eq (position : Position) (p : Program) :
    p.nodes position = (position, p) :: p.children.zipIdx.flatMap fun (c, k) =>
      c.nodes (k :: position) := by
  cases p <;> simp [nodes, children]

theorem nodeCount_eq (p : Program) :
    p.nodeCount = 1 + (p.children.map nodeCount).sum := by
  cases p <;> simp [nodeCount, children, Nat.add_assoc]

theorem length_nodes (p : Program) :
    ∀ position, (p.nodes position).length = p.nodeCount := by
  induction p using byChildren with
  | step p ih =>
    intro position
    rw [nodes_eq, nodeCount_eq, List.length_cons, List.length_flatMap, Nat.add_comm]
    congr 2
    calc p.children.zipIdx.map (fun (c, k) => (c.nodes (k :: position)).length)
      _ = p.children.zipIdx.map (fun (c, _) => c.nodeCount) :=
        List.map_congr_left fun entry mem => ih _ (List.fst_mem_of_mem_zipIdx mem) _
      _ = (p.children.zipIdx.map Prod.fst).map nodeCount := by
        rw [List.map_map]; rfl
      _ = p.children.map nodeCount := by rw [List.zipIdx_map_fst]

/-- A child of a node is the node below it that has the child's number. -/
theorem child_mem_nodes {root p c : Program} {k : Nat}
    (child : p.children[k]? = some c) : ∀ {start position},
    (position, p) ∈ root.nodes start → (k :: position, c) ∈ root.nodes start := by
  induction root using byChildren with
  | step root ih =>
    intro start position mem
    rw [nodes_eq] at mem ⊢
    refine List.mem_cons_of_mem _ (List.mem_flatMap.mpr ?_)
    rcases List.mem_cons.mp mem with same | below
    · cases same
      refine ⟨(c, k), List.mk_mem_zipIdx_iff_getElem?.mpr child, ?_⟩
      dsimp only
      rw [nodes_eq]
      exact List.mem_cons_self
    · obtain ⟨entry, number, mem⟩ := List.mem_flatMap.mp below
      exact ⟨entry, number, ih _ (List.fst_mem_of_mem_zipIdx number) mem⟩

/-! ## Positions -/

/-- A node stands below the position of the whole. -/
theorem suffix_of_mem_nodes {p q : Program} :
    ∀ {start position}, (position, q) ∈ p.nodes start → start <:+ position := by
  induction p using byChildren with
  | step p ih =>
    intro start position mem
    rw [nodes_eq] at mem
    rcases List.mem_cons.mp mem with same | below
    · cases same
      exact List.suffix_refl start
    · obtain ⟨⟨c, k⟩, number, mem⟩ := List.mem_flatMap.mp below
      exact (List.suffix_cons k start).trans
        (ih c (List.fst_mem_of_mem_zipIdx number) mem)

/-- What stands below two children stands below one. -/
theorem number_eq_of_suffix {k l : Nat} {start position : Position}
    (first : k :: start <:+ position) (second : l :: start <:+ position) :
    k = l := by
  have same :=
    (List.suffix_of_suffix_length_le first second (by simp)).eq_of_length (by simp)
  exact (List.cons.inj same).1

/-- No two nodes share a position. -/
theorem distinct_positions (p : Program) :
    ∀ start, ((p.nodes start).map Prod.fst).Nodup := by
  induction p using byChildren with
  | step p ih =>
    intro start
    rw [nodes_eq, List.map_cons, List.nodup_cons, List.map_flatMap,
      List.nodup_flatMap]
    refine ⟨?_, ?_, ?_⟩
    · intro mem
      obtain ⟨⟨c, k⟩, _, mem⟩ := List.mem_flatMap.mp mem
      obtain ⟨⟨position, q⟩, mem, same⟩ := List.mem_map.mp mem
      have longer := (suffix_of_mem_nodes mem).length_le
      rw [show position = start from same, List.length_cons] at longer
      omega
    · intro entry mem
      exact ih entry.1 (List.fst_mem_of_mem_zipIdx mem) _
    · rw [List.pairwise_iff_getElem]
      intro i j hi hj less position first second
      obtain ⟨⟨q, n⟩, mem, rfl⟩ := List.mem_map.mp first
      obtain ⟨⟨q', n'⟩, mem', same⟩ := List.mem_map.mp second
      cases same
      have numbers := number_eq_of_suffix (suffix_of_mem_nodes mem)
        (suffix_of_mem_nodes mem')
      simp at numbers
      omega

/-! ## Parts -/

/-- The nodes of a program in order, each as the program below it. -/
def parts (p : Program) : List Program :=
  (p.nodes []).map Prod.snd

/-- Where a program stands makes no difference to its parts. -/
theorem map_snd_nodes (p : Program) :
    ∀ position, (p.nodes position).map Prod.snd = p.parts := by
  induction p using byChildren with
  | step p ih =>
    intro position
    unfold parts
    rw [nodes_eq, nodes_eq, List.map_cons, List.map_cons, List.map_flatMap,
      List.map_flatMap]
    congr 1
    refine List.flatMap_congr fun entry mem => ?_
    have child := List.fst_mem_of_mem_zipIdx mem
    exact (ih _ child _).trans (ih _ child _).symm

theorem parts_eq (p : Program) : p.parts = p :: p.children.flatMap parts := by
  unfold parts
  rw [nodes_eq, List.map_cons, List.map_flatMap]
  congr 1
  calc p.children.zipIdx.flatMap (fun (c, k) => (c.nodes [k]).map Prod.snd)
    _ = p.children.zipIdx.flatMap (fun (c, _) => c.parts) :=
      List.flatMap_congr fun entry _ => entry.1.map_snd_nodes _
    _ = (p.children.zipIdx.map Prod.fst).flatMap parts := by rw [List.flatMap_map]
    _ = p.children.flatMap parts := by rw [List.zipIdx_map_fst]

theorem mem_parts_self (p : Program) : p ∈ p.parts := by
  rw [parts_eq]
  exact List.mem_cons_self

/-- The parts of a child are parts of its parent. -/
theorem parts_subset_of_child {p c : Program} (child : c ∈ p.children) :
    c.parts ⊆ p.parts := by
  intro q mem
  rw [parts_eq p]
  exact List.mem_cons_of_mem _ (List.mem_flatMap.mpr ⟨c, child, mem⟩)

/-- The parts of a part are parts of the whole. -/
theorem parts_subset {p : Program} : ∀ {q}, q ∈ p.parts → q.parts ⊆ p.parts := by
  induction p using byChildren with
  | step p ih =>
    intro q part
    rw [parts_eq p] at part
    rcases List.mem_cons.mp part with rfl | below
    · exact fun _ mem => mem
    · obtain ⟨child, mem, part⟩ := List.mem_flatMap.mp below
      exact List.Subset.trans (ih child mem part) (parts_subset_of_child mem)

/-- A child has fewer nodes than its parent. -/
theorem nodeCount_lt_of_child {p c : Program} (child : c ∈ p.children) :
    c.nodeCount < p.nodeCount := by
  cases p <;> simp only [children, List.mem_cons, List.not_mem_nil, or_false]
    at child <;> simp only [nodeCount] <;> grind

/-- A child is less deep than its parent. -/
theorem depth_lt_of_child {p c : Program} (child : c ∈ p.children) :
    c.depth < p.depth := by
  cases p <;> simp only [children, List.mem_cons, List.not_mem_nil, or_false]
    at child <;> simp only [depth] <;> grind

theorem depth_pos (p : Program) : 0 < p.depth := by
  cases p <;> simp only [depth] <;> omega

/-- A program is one level deeper than its deepest child. -/
theorem depth_le_of_children {p : Program} {n : Nat}
    (children : ∀ c ∈ p.children, c.depth ≤ n) :
    p.depth ≤ n + 1 := by
  cases p <;> simp_all [Program.children, depth] <;> omega

/-! ## Bindings -/

/-- A node that neither makes a binding nor reads one. -/
def Plain : Program → Prop
  | .lookup _ => False
  | .functionDef _ _ _ => False
  | _ => True

/-- Induction for facts about bindings: lookups, definitions, and all other
nodes by their children. -/
theorem byBinding {motive : Program → Prop} (lookup : ∀ b, motive (.lookup b))
    (functionDef : ∀ b body input, motive input → motive body →
      motive (.functionDef b body input))
    (plain : ∀ p, p.Plain → (∀ c ∈ p.children, motive c) → motive p)
    (p : Program) : motive p := by
  induction p with
  | lookup b => exact lookup b
  | functionDef b body input bodyIH inputIH =>
    exact functionDef b body input inputIH bodyIH
  | _ => exact plain _ trivial (by simp_all [children])

/-- The binding that the root defines, if it is a definition. -/
def definition? : Program → Option Binding
  | .functionDef b _ _ => some b
  | _ => none

/-- The bindings of a program's definitions, in the order of its nodes. -/
def definedBindings (p : Program) : List Binding :=
  p.parts.filterMap definition?

/-- A definition comes before those in its input, and these before those in its
body. -/
theorem definedBindings_eq (p : Program) :
    p.definedBindings =
      p.definition?.toList ++ p.children.flatMap definedBindings := by
  unfold definedBindings
  rw [parts_eq, List.filterMap_cons, List.filterMap_flatMap]
  cases p.definition? <;> rfl

@[simp]
theorem definedBindings_functionDef (b : Binding) (body input : Program) :
    (functionDef b body input).definedBindings =
      b :: (input.definedBindings ++ body.definedBindings) := by
  simp [definedBindings_eq (functionDef b body input), definition?, children]

@[simp]
theorem definedBindings_lookup (b : Binding) :
    (lookup b).definedBindings = [] := rfl

theorem Plain.definedBindings {p : Program} (plain : p.Plain) :
    p.definedBindings = p.children.flatMap Program.definedBindings := by
  rw [definedBindings_eq]
  cases p with
  | lookup b => exact plain.elim
  | functionDef b body input => exact plain.elim
  | _ => rfl

/-- What a child defines, its parent defines. -/
theorem mem_definedBindings_of_child {p c : Program} {b : Binding}
    (child : c ∈ p.children) (mem : b ∈ c.definedBindings) :
    b ∈ p.definedBindings := by
  rw [definedBindings_eq]
  exact List.mem_append_right _ (List.mem_flatMap.mpr ⟨c, child, mem⟩)

end Program

end FieldExpr
