import FieldExpr.Proofs.Program.Scoping

/-!
# The first defect in the bindings of a program

The check of scopes walks through a program with a scope that grows and shrinks
and with a set of bindings that only grows. It comes to one pass over the nodes
in order, in which each node is looked at by itself: a lookup by the bodies that
its position lies in, and a definition by the definitions before it
(`checkScope_eq_foldlM`). So the check passes exactly the programs without a
defect at any node, and reports the first one of all others
(`validate_reports_firstDefect`).
-/

namespace FieldExpr

namespace Program

/-! ## Bodies -/

/-- The position lies inside the body of a definition of the binding, in a
program that stands at `start`. The body of a definition is its second child. -/
def InBody (p : Program) (start position : Position) (b : Binding) : Prop :=
  ∃ node ∈ p.nodes start, node.2.definition? = some b ∧ 1 :: node.1 <:+ position

instance (p : Program) (start position : Position) (b : Binding) :
    Decidable (p.InBody start position b) :=
  inferInstanceAs (Decidable (∃ node ∈ p.nodes start, _))

/-- A position inside a child is inside the bodies around it in this child, and
inside that of the root if this child is it. -/
theorem inBody_iff {p c : Program} {k : Nat} (child : p.children[k]? = some c)
    {start position : Position} (inside : k :: start <:+ position) (b : Binding) :
    p.InBody start position b ↔ (k = 1 ∧ p.definition? = some b) ∨
    c.InBody (k :: start) position b := by
  unfold InBody
  rw [nodes_eq]
  constructor
  · rintro ⟨node, mem, defines, below⟩
    rcases List.mem_cons.mp mem with rfl | deeper
    · exact .inl ⟨number_eq_of_suffix inside below, defines⟩
    · obtain ⟨⟨c', l⟩, number, mem⟩ := List.mem_flatMap.mp deeper
      -- The definition stands inside one child, and that is the one with
      -- the position.
      have within :=
        (suffix_of_mem_nodes mem).trans ((List.suffix_cons 1 node.1).trans below)
      cases number_eq_of_suffix inside within
      cases child.symm.trans (List.mk_mem_zipIdx_iff_getElem?.mp number)
      exact .inr ⟨node, mem, defines, below⟩
  · rintro (⟨rfl, defines⟩ | ⟨node, mem, defines, below⟩)
    · exact ⟨(start, p), List.mem_cons_self, defines, inside⟩
    · refine ⟨node,
        List.mem_cons_of_mem _ (List.mem_flatMap.mpr ⟨(c, k), ?_, mem⟩),
        defines, below⟩
      exact List.mk_mem_zipIdx_iff_getElem?.mpr child

/-! ## One pass over the nodes -/

/-- The bindings that definitions among these nodes define. -/
def definedAmong (nodes : List (Position × Program)) : List Binding :=
  nodes.filterMap (·.2.definition?)

theorem mem_definedAmong_take {nodes : List (Position × Program)} {n : Nat}
    {b : Binding} :
    b ∈ definedAmong (nodes.take n) ↔ ∃ m < n, ∃ node, nodes[m]? = some node ∧
    node.2.definition? = some b := by
  unfold definedAmong
  constructor
  · intro mem
    obtain ⟨node, among, defines⟩ := List.mem_filterMap.mp mem
    obtain ⟨m, found⟩ := List.getElem?_of_mem among
    rw [List.getElem?_take] at found
    split at found
    · rename_i less
      exact ⟨m, less, node, found, defines⟩
    · cases found
  · rintro ⟨m, less, node, found, defines⟩
    refine List.mem_filterMap.mpr ⟨node, ?_, defines⟩
    apply List.mem_of_getElem? (i := m)
    rw [List.getElem?_take, if_pos less]
    exact found

section

variable (inScope : Position → Binding → Prop)
    [∀ position b, Decidable (inScope position b)]

/-- What is wrong with a node, where `inScope` says which bindings are in scope
at a position and `defined` are the bindings of earlier definitions. -/
def nodeDefect? (defined : List Binding) : Position × Program → Option ScopeError
  | (position, .lookup b) =>
    if inScope position b then none else some (.unboundLookup b)
  | (_, .functionDef b _ _) =>
    if b ∈ defined then some (.duplicateBinding b) else none
  | _ => none

/-- The check of one node: the bindings that are defined behind it. -/
def checkNode (defined : List Binding) (node : Position × Program) :
    Except ScopeError (List Binding) :=
  match nodeDefect? inScope defined node with
  | some defect => .error defect
  | none => .ok (node.2.definition?.toList ++ defined)

/-- `inScope` is right about the nodes of a part that stands at a position
inside the bodies of a scope. -/
def RightAbout (p : Program) (start : Position) (scope : List Binding) : Prop :=
  ∀ position, start <:+ position → ∀ b, inScope position b ↔
    b ∈ scope ∨ p.InBody start position b

variable {inScope} {start : Position} {scope : List Binding}

omit [∀ position b, Decidable (inScope position b)] in
theorem RightAbout.child {p c : Program} {k : Nat} {scope' : List Binding}
    (right : RightAbout inScope p start scope) (child : p.children[k]? = some c)
    (inner : ∀ b, b ∈ scope' ↔ (k = 1 ∧ p.definition? = some b) ∨ b ∈ scope) :
    RightAbout inScope c (k :: start) scope' := by
  intro position inside b
  rw [right position ((List.suffix_cons k start).trans inside) b,
    inBody_iff child inside, inner]
  tauto

theorem Plain.checkNode_eq {p : Program} (plain : p.Plain)
    (defined : List Binding) :
    checkNode inScope defined (start, p) = .ok defined := by
  cases p with
  | lookup b => exact plain.elim
  | functionDef b body input => exact plain.elim
  | _ => rfl

/-- Parts that are checked one after the other are checked over all their nodes. -/
theorem foldlM_nodes {entries : List (Program × Nat)} {defined : List Binding}
    (each : ∀ entry ∈ entries, ∀ defined,
      entry.1.checkScope scope defined =
        (entry.1.nodes (entry.2 :: start)).foldlM (checkNode inScope) defined) :
    (entries.map Prod.fst).foldlM
      (fun defined c => c.checkScope scope defined) defined =
      (entries.flatMap fun (c, k) => c.nodes (k :: start)).foldlM
        (checkNode inScope) defined := by
  induction entries generalizing defined with
  | nil => rfl
  | cons entry rest ih =>
    rw [List.map_cons, List.foldlM_cons, List.flatMap_cons, List.foldlM_append,
      each entry List.mem_cons_self]
    congr 1
    funext between
    apply ih
    intro other mem
    exact each other (List.mem_cons_of_mem _ mem)

/-- The check of a program goes over its nodes in order, and looks at each of
them with the bindings in scope there. -/
theorem checkScope_eq_foldlM (p : Program) :
    ∀ {start : Position} {scope : List Binding} (defined : List Binding),
    RightAbout inScope p start scope →
      p.checkScope scope defined =
        (p.nodes start).foldlM (checkNode inScope) defined := by
  induction p using byBinding with
  | lookup b =>
    intro start scope defined right
    have same : inScope start b ↔ b ∈ scope := by
      rw [right start (List.suffix_refl start) b]
      simp [InBody, nodes, definition?]
    rw [checkScope, nodes, List.foldlM_cons, checkNode, nodeDefect?]
    by_cases bound : b ∈ scope
    · rw [if_pos bound, if_pos (same.mpr bound)]
      rfl
    · rw [if_neg bound, if_neg (fun h => bound (same.mp h))]
      rfl
  | functionDef b body input inputIH bodyIH =>
    intro start scope defined right
    have inputRight : RightAbout inScope input (0 :: start) scope :=
      right.child rfl fun a => by simp
    have bodyRight : RightAbout inScope body (1 :: start) (b :: scope) :=
      right.child rfl fun a => by simp [definition?, eq_comm]
    rw [checkScope, nodes, List.foldlM_cons, checkNode, nodeDefect?]
    by_cases known : b ∈ defined
    · rw [if_pos known, if_pos known]
      rfl
    · rw [if_neg known, if_neg known, inputIH _ inputRight]
      simp only [bodyIH _ bodyRight]
      exact (List.foldlM_append ..).symm
  | plain p plain ih =>
    intro start scope defined right
    have parts : ∀ entry ∈ p.children.zipIdx, ∀ defined,
        entry.1.checkScope scope defined =
          (entry.1.nodes (entry.2 :: start)).foldlM (checkNode inScope)
          defined := by
      intro entry mem defined
      apply ih entry.1 (List.fst_mem_of_mem_zipIdx mem)
      apply right.child (List.mk_mem_zipIdx_iff_getElem?.mp mem)
      intro b
      have none : p.definition? = none := by
        cases p with
        | functionDef b body input => exact plain.elim
        | _ => rfl
      simp [none]
    rw [plain.checkScope_eq, nodes_eq, List.foldlM_cons, plain.checkNode_eq]
    have pass := @foldlM_nodes inScope _ start scope p.children.zipIdx defined parts
    rw [List.zipIdx_map_fst] at pass
    exact pass

/-! ## The first defect -/

/-- Only whether a binding is defined matters, and not in which order. -/
theorem nodeDefect?_congr {defined defined' : List Binding}
    (same : ∀ b, b ∈ defined ↔ b ∈ defined') (node : Position × Program) :
    nodeDefect? inScope defined node = nodeDefect? inScope defined' node := by
  obtain ⟨position, p⟩ := node
  cases p with
  | functionDef b body input => simp only [nodeDefect?, same]
  | _ => rfl

variable (inScope) in
/-- What is wrong with the node at place `n` of `rest`, which come after
those in `before`. -/
def defectIn? (before rest : List (Position × Program)) (n : Nat) :
    Option ScopeError :=
  rest[n]?.bind (nodeDefect? inScope (definedAmong (before ++ rest.take n)))

theorem defectIn?_zero (before rest : List (Position × Program))
    (first : Position × Program) :
    defectIn? inScope before (first :: rest) 0 =
      nodeDefect? inScope (definedAmong before) first := by
  unfold defectIn?
  rw [List.take_zero, List.append_nil]
  rfl

theorem defectIn?_succ (before rest : List (Position × Program))
    (first : Position × Program) (n : Nat) :
    defectIn? inScope before (first :: rest) (n + 1) =
      defectIn? inScope (before ++ [first]) rest n := by
  unfold defectIn?
  rw [List.getElem?_cons_succ, List.take_succ_cons, List.append_cons]

variable (inScope) in
/-- A pass over nodes, after those in `before`, finds nothing wrong with any of
them or stops at the first one with a defect. -/
theorem foldlM_checkNode (rest : List (Position × Program)) :
    ∀ (before : List (Position × Program)) (defined : List Binding),
      (∀ b, b ∈ defined ↔ b ∈ definedAmong before) →
    ((∃ result, rest.foldlM (checkNode inScope) defined = .ok result) ∧
      ∀ n, defectIn? inScope before rest n = none) ∨
      ∃ n defect, rest.foldlM (checkNode inScope) defined = .error defect ∧
        defectIn? inScope before rest n = some defect ∧
        ∀ m < n, defectIn? inScope before rest m = none := by
  induction rest with
  | nil =>
    intro before defined same
    exact .inl ⟨⟨defined, rfl⟩, fun n => rfl⟩
  | cons first rest ih =>
    intro before defined same
    have here : nodeDefect? inScope defined first =
        defectIn? inScope before (first :: rest) 0 := by
      rw [defectIn?_zero]
      exact nodeDefect?_congr same first
    cases wrong : nodeDefect? inScope defined first with
    | some defect =>
      rw [wrong] at here
      refine .inr ⟨0, defect, ?_, here.symm, ?_⟩
      · rw [List.foldlM_cons, checkNode, wrong]
        rfl
      · intro m less
        exact absurd less (Nat.not_lt_zero m)
    | none =>
      rw [wrong] at here
      have step : (first :: rest).foldlM (checkNode inScope) defined =
          rest.foldlM (checkNode inScope)
            (first.2.definition?.toList ++ defined) := by
        rw [List.foldlM_cons, checkNode, wrong]
        rfl
      have same' : ∀ b, b ∈ first.2.definition?.toList ++ defined ↔
          b ∈ definedAmong (before ++ [first]) := by
        intro b
        simp [definedAmong, same, or_comm]
      rw [step]
      rcases ih _ _ same' with ⟨ok, fine⟩ | ⟨n, defect, failed, defective, fine⟩
      · refine .inl ⟨ok, fun n => ?_⟩
        cases n with
        | zero => exact here.symm
        | succ n =>
          rw [defectIn?_succ]
          exact fine n
      · refine .inr ⟨n + 1, defect, failed, ?_, fun m less => ?_⟩
        · rw [defectIn?_succ]
          exact defective
        · cases m with
          | zero => exact here.symm
          | succ m =>
            rw [defectIn?_succ]
            exact fine m (by omega)

end

/-- What is wrong with the node that comes after `n` others, if there is one and
anything is: a lookup that no body of a definition of its binding encloses, or a
definition of a binding that one of the others defines. -/
def defectAt? (p : Program) (n : Nat) : Option ScopeError :=
  (p.nodes [])[n]?.bind (nodeDefect? (p.InBody [])
    (definedAmong ((p.nodes []).take n)))

theorem defectAt?_of_getElem? {p : Program} {n : Nat} {node : Position × Program}
    (found : (p.nodes [])[n]? = some node) :
    p.defectAt? n =
      nodeDefect? (p.InBody []) (definedAmong ((p.nodes []).take n)) node := by
  unfold defectAt?
  rw [found]
  rfl

theorem exists_of_defectAt? {p : Program} {n : Nat} {defect : ScopeError}
    (defective : p.defectAt? n = some defect) :
    ∃ node, (p.nodes [])[n]? = some node := by
  unfold defectAt? at defective
  obtain ⟨node, found, _⟩ := Option.bind_eq_some_iff.mp defective
  exact ⟨node, found⟩

/-- Without a defect the check passes, and otherwise it reports the first one. -/
theorem validate_cases (p : Program) :
    (p.validate = .ok () ∧ ∀ n, p.defectAt? n = none) ∨
      ∃ n defect, p.validate = .error defect ∧ p.defectAt? n = some defect ∧
      ∀ m < n, p.defectAt? m = none := by
  have right : RightAbout (p.InBody []) p [] [] := by
    intro position _ b
    simp
  unfold validate
  rw [checkScope_eq_foldlM p [] right]
  rcases foldlM_checkNode (p.InBody []) (p.nodes []) [] [] (fun b => Iff.rfl) with
    ⟨⟨result, ok⟩, fine⟩ | ⟨n, defect, failed, defective, fine⟩
  · left
    rw [ok]
    exact ⟨rfl, fine⟩
  · right
    rw [failed]
    exact ⟨n, defect, rfl, defective, fine⟩

/-- The second of two definitions of a binding is a defect. -/
theorem defectAt?_of_redefined {p : Program} {m n : Nat}
    {first second : Position × Program} {b : Binding} (less : m < n)
    (foundFirst : (p.nodes [])[m]? = some first)
    (foundSecond : (p.nodes [])[n]? = some second)
    (definesFirst : first.2.definition? = some b)
    (definesSecond : second.2.definition? = some b) :
    p.defectAt? n = some (.duplicateBinding b) := by
  have taken : b ∈ definedAmong ((p.nodes []).take n) :=
    mem_definedAmong_take.mpr ⟨m, less, first, foundFirst, definesFirst⟩
  rw [defectAt?_of_getElem? foundSecond]
  obtain ⟨position, q⟩ := second
  cases q with
  | functionDef a body input =>
    cases definesSecond
    exact if_pos taken
  | _ => cases definesSecond

/-- No node has a defect exactly when each lookup lies in a body of a definition
of its binding and no two definitions share a binding. -/
theorem defectAt?_eq_none_iff (p : Program) :
    (∀ n, p.defectAt? n = none) ↔
      (∀ position b, (position, lookup b) ∈ p.nodes [] → p.InBody [] position b) ∧
        ∀ first ∈ p.nodes [], ∀ second ∈ p.nodes [], ∀ b,
          first.2.definition? = some b → second.2.definition? = some b →
          first = second := by
  constructor
  · intro fine
    constructor
    · intro position b mem
      obtain ⟨n, found⟩ := List.getElem?_of_mem mem
      by_contra outside
      have defect := fine n
      rw [defectAt?_of_getElem? found, nodeDefect?, if_neg outside] at defect
      cases defect
    · intro first mem second mem' b defines defines'
      obtain ⟨m, found⟩ := List.getElem?_of_mem mem
      obtain ⟨n, found'⟩ := List.getElem?_of_mem mem'
      rcases Nat.lt_trichotomy m n with less | same | less
      · have defect := defectAt?_of_redefined less found found' defines defines'
        rw [fine n] at defect
        cases defect
      · rw [same, found'] at found
        cases found
        rfl
      · have defect := defectAt?_of_redefined less found' found defines' defines
        rw [fine m] at defect
        cases defect
  · rintro ⟨bound, distinct⟩ n
    by_contra some
    obtain ⟨defect, defective⟩ := Option.ne_none_iff_exists'.mp some
    obtain ⟨⟨position, q⟩, found⟩ := exists_of_defectAt? defective
    have mem := List.mem_of_getElem? found
    rw [defectAt?_of_getElem? found] at defective
    cases q with
    | lookup b =>
      rw [nodeDefect?, if_pos (bound position b mem)] at defective
      cases defective
    | functionDef b body input =>
      -- An earlier definition of the binding would be this one, and so stand at
      -- another place of the list too.
      have taken : b ∈ definedAmong ((p.nodes []).take n) := by
        by_contra fresh
        rw [nodeDefect?, if_neg fresh] at defective
        cases defective
      obtain ⟨m, less, other, foundOther, defines⟩ := mem_definedAmong_take.mp taken
      cases distinct other (List.mem_of_getElem? foundOther) _ mem b defines rfl
      have nodup := (p.distinct_positions []).of_map
      have place :=
        (List.getElem?_inj (List.getElem?_eq_some_iff.mp found).1 nodup).mp
          (found.trans foundOther.symm)
      omega
    | _ => cases defective

/-- The check of scopes passes exactly the programs in which each lookup lies in
a body of a definition of its binding and no two definitions share a binding. It
answers all others with the defect of the first node, in the order of the nodes,
that has one. -/
theorem validate_reports_firstDefect (p : Program) :
    (p.validate = .ok () ↔
      (∀ position b, (position, lookup b) ∈ p.nodes [] → p.InBody [] position b) ∧
        ∀ first ∈ p.nodes [], ∀ second ∈ p.nodes [], ∀ b,
          first.2.definition? = some b → second.2.definition? = some b →
          first = second) ∧
    ∀ defect, p.validate = .error defect ↔
      ∃ n, p.defectAt? n = some defect ∧ ∀ m < n, p.defectAt? m = none := by
  rw [← defectAt?_eq_none_iff]
  rcases validate_cases p with ⟨valid, fine⟩ | ⟨n, defect, invalid,
    defective, first⟩
  · rw [valid]
    refine ⟨⟨fun _ => fine, fun _ => rfl⟩,
      fun defect => ⟨fun failed => (by cases failed), ?_⟩⟩
    rintro ⟨n, defective, _⟩
    rw [fine n] at defective
    cases defective
  · rw [invalid]
    refine ⟨⟨fun passed => (by cases passed), fun fine => ?_⟩,
      fun other => ⟨fun same => ?_, ?_⟩⟩
    · rw [fine n] at defective
      cases defective
    · cases same
      exact ⟨n, defective, first⟩
    · rintro ⟨m, defective', first'⟩
      rcases Nat.lt_trichotomy m n with less | same | less
      · rw [first m less] at defective'
        cases defective'
      · rw [← same, defective'] at defective
        cases defective
        rfl
      · rw [first' n less] at defective
        cases defective

/-- A definition is looked up in its own input, and its binding is defined once
more. The lookup comes first. -/
example :
    (pipe (functionDef ⟨7⟩ (lookup ⟨7⟩) (lookup ⟨7⟩))
      (functionDef ⟨7⟩ (lookup ⟨7⟩) identity)).validate =
    .error (.unboundLookup ⟨7⟩) := by decide

end Program

end FieldExpr
