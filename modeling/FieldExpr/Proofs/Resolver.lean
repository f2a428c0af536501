import FieldExpr.Proofs.Evaluation.Adequacy
import FieldExpr.Proofs.Value.Paths
import FieldExpr.Resolver

/-!
# What a resolver gives back

The program that returns its subject shows what a resolver hands to programs:
the parent and the arguments, which come back as they were if their numbers are
integers (`integral_documents_unchanged`). A program that picks an element of
one of the two shows what a selection makes of the parent: the parts at the
paths, in the order of the paths (`selected_parts`).
-/

namespace FieldExpr

namespace Resolver

variable {r : Resolver} {parent : Json} {args : List (String × Json)}
    {subject v : Value} {e : EvaluationError}

theorem resolve_of_value (reads : r.subject parent args = .ok subject)
    (value : r.program.evaluate r.config r.context subject = .ok v) :
    r.resolve parent args = .ok v.toJson := by
  have result : (r.evaluation subject).result = .ok v := value
  unfold resolve
  rw [reads]
  dsimp only
  rw [result]

theorem resolve_of_error (reads : r.subject parent args = .ok subject)
    (error : r.program.evaluate r.config r.context subject = .error e) :
    r.resolve parent args = .error (.evaluation e) := by
  have result : (r.evaluation subject).result = .error e := error
  unfold resolve
  rw [reads]
  dsimp only
  rw [result]

/-- The subject holds the narrowed parent and the arguments, and exists where
the parent and the arguments are values, whatever is selected. -/
theorem subject_eq_ok_iff : r.subject parent args = .ok subject ↔
    ∃ fields v, Value.ofJsonEntries args = .ok fields ∧
      Value.ofJson parent = .ok v ∧
      subject = .record [("value", r.narrowed v), ("args", .record fields)] := by
  constructor
  · intro reads
    obtain ⟨fields, readArgs, reads⟩ := bind_eq_ok_iff.mp reads
    obtain ⟨v, readParent, reads⟩ := bind_eq_ok_iff.mp reads
    cases reads
    exact ⟨fields, v, readArgs, readParent, rfl⟩
  · rintro ⟨fields, v, readArgs, readParent, rfl⟩
    unfold Resolver.subject
    rw [readArgs, readParent]
    rfl

/-! ## Integral documents -/

/-- A resolver that returns its subject and selects nothing gives integral
documents back. -/
theorem resolve_identity (program : r.program = .identity)
    (selection : r.selection = none) (normal : parent.Normal)
    (normals : Json.NormalEntries args) :
    r.resolve parent args =
      .ok (.ofEntries [("value", parent), ("args", .ofEntries args)]) := by
  obtain ⟨v, readParent, writtenParent⟩ := Value.exists_ofJson parent normal
  obtain ⟨fields, readArgs, writtenArgs⟩ := Value.exists_ofJsonEntries args normals
  have whole : r.narrowed v = v := by
    unfold narrowed
    rw [selection]
  have value : r.program.evaluate r.config r.context
      (.record [("value", v), ("args", .record fields)]) =
      .ok (.record [("value", v), ("args", .record fields)]) := by
    rw [program, evaluate_eq_outcome (Nat.le_add_left 1 _)]
    rfl
  rw [resolve_of_value
    (subject_eq_ok_iff.mpr ⟨fields, v, readArgs, readParent, by rw [whole]⟩) value]
  show Except.ok
    (Json.ofEntries
      [("value", v.toJson), ("args", .ofEntries (Value.toJsonFields fields))]) = _
  rw [writtenParent, writtenArgs]

end Resolver

/-- A document whose numbers are integers of 64 bits, signed or unsigned, is
that of its value, although the integers that are too great for the signed ones
are decimals in the value. So a resolver that returns its subject gives such a
parent and such arguments back, whatever depth it allows. -/
theorem integral_documents_unchanged :
    (∀ j : Json, j.Normal → ∃ v, Value.ofJson j = .ok v ∧ v.toJson = j) ∧
    (∀ (n : Int) (low : -0x8000000000000000 ≤ n) (high : n < 0x10000000000000000),
      if n < 0x8000000000000000 then
        ∃ m : Int64,
          Value.ofJson (.number (.integer n low high)) = .ok (.integer m) ∧
          m.toInt = n
      else
        ∃ d : Decimal,
          Value.ofJson (.number (.integer n low high)) = .ok (.decimal d) ∧
          d.units = n * (tenPow Decimal.maxScale : Nat)) ∧
    ∀ (config : EngineConfig) (field : Option String) (parent : Json)
      (args : List (String × Json)), parent.Normal →
      Json.NormalEntries args →
      Resolver.resolve { program := .identity, config, field } parent args =
        .ok (.ofEntries [("value", parent), ("args", .ofEntries args)]) := by
  refine ⟨Value.exists_ofJson, fun n low high => ?_, ?_⟩
  · split
    · rename_i small
      refine ⟨Int64.ofInt n, ?_, Int64.toInt_ofInt_of_le low small⟩
      rw [Value.ofJson_integer low high, if_pos small]
    · rename_i great
      have fits := Decimal.natAbs_lt_capacity low high
      refine ⟨.ofInt n fits, ?_, Decimal.units_ofInt fits⟩
      rw [Value.ofJson_integer low high, if_neg great]
  · intro config field parent args normal normals
    exact Resolver.resolve_identity rfl rfl normal normals

/-- A parent with the least and the greatest integers, and one that is just too
great for a signed one. -/
def extremes : Json :=
  .object [
    ("ids", .array [.number (.ofInt64 Int64.minValue),
      Json.ofUInt64 0x8000000000000000, Json.ofUInt64 0xFFFFFFFFFFFFFFFF]),
    ("owner", .object [("name", .string "ada"), ("tags", .array [])])]

theorem integral_documents_unchanged_extremes :
    (∃ v, Value.ofJson extremes = .ok v ∧ v.toJson = extremes) ∧
    Resolver.resolve { program := .identity, config := { maxDepth := 0 } }
      extremes [("limit", Json.ofUInt64 3)] =
      .ok (.ofEntries [
        ("value", extremes),
        ("args", .ofEntries [("limit", Json.ofUInt64 3)])]) := by
  have fields : Json.Ascending
      [("name", Json.string "ada"), ("tags", Json.array [])] := by
    refine List.pairwise_pair.mpr ?_
    show "name" < "tags"
    decide
  have normal : extremes.Normal := by
    refine ⟨List.pairwise_pair.mpr ?_, ⟨trivial, trivial, trivial, trivial⟩,
      ⟨fields, trivial, trivial, trivial⟩, trivial⟩
    show "ids" < "owner"
    decide
  exact ⟨integral_documents_unchanged.1 extremes normal,
    integral_documents_unchanged.2.2 { maxDepth := 0 } none extremes _ normal
      ⟨trivial, trivial⟩⟩

/-! ## Selected parts -/

/-- The program that picks an element of the subject's element at a position. -/
def Program.picks (field index : UInt64) : Program :=
  .tupleGetIndex (.tupleGetIndex .identity field) index

theorem Program.outcome_tupleGetIndex (settings : Settings) (tuple : Program)
    (index : UInt64) (env : List (Binding × Meaning)) (subject : Value) :
    (Program.tupleGetIndex tuple index).outcome settings env subject =
      tuple.outcome settings env subject >>= Rule.select index := by
  show ((do
    let v ← tuple.outcome settings env subject
    return Meaning.ready (← Rule.select index v)) >>= Meaning.demand) = _
  cases tuple.outcome settings env subject with
  | error e => rfl
  | ok v =>
    show ((do return Meaning.ready (← Rule.select index v)) >>=
      Meaning.demand) = Rule.select index v
    cases Rule.select index v <;> rfl

/-- Picking selects twice, if the limit allows for a program of three nodes. -/
theorem Program.evaluate_picks {config : EngineConfig}
    (deep : 2 ≤ config.maxDepth.toNat) (field index : UInt64)
    (context : Context) (subject : Value) :
    (Program.picks field index).evaluate config context subject =
      Rule.select field subject >>= Rule.select index := by
  have room : (Program.picks field index).nodeCount ≤
    config.maxDepth.toNat + 1 := Nat.succ_le_succ deep
  rw [evaluate_eq_outcome room, Program.picks, Program.outcome_tupleGetIndex,
    Program.outcome_tupleGetIndex]
  rfl

namespace Resolver

variable {r : Resolver} {parent : Json} {args : List (String × Json)}
  {paths : List String} {path : String} {index : UInt64}
  {v : Value} {fields : List (String × Value)}

/-- The part that a resolver selects at a path: the value of the part of the
parent there, or unit. -/
theorem resolve_selected (deep : 2 ≤ r.config.maxDepth.toNat)
    (readArgs : Value.ofJsonEntries args = .ok fields)
    (readParent : Value.ofJson parent = .ok v)
    (selected : paths[index.toNat]? = some path) :
    ({ r.selecting paths with program := .picks 0 index } : Resolver).resolve
      parent args =
      .ok ((v.path? (pathSegments path)).getD .unit).toJson := by
  refine resolve_of_value
    (subject_eq_ok_iff.mpr ⟨fields, v, readArgs, readParent, rfl⟩) ?_
  refine (Program.evaluate_picks deep 0 index _ _).trans ?_
  show Rule.orFail _ ((paths.map pathSegments).map fun path =>
    (v.path? path).getD .unit)[index.toNat]? = _
  rw [List.getElem?_map, List.getElem?_map, selected]
  rfl

/-- Behind the last path there is nothing to pick. -/
theorem resolve_unselected (deep : 2 ≤ r.config.maxDepth.toNat)
    (readArgs : Value.ofJsonEntries args = .ok fields)
    (readParent : Value.ofJson parent = .ok v)
    (behind : paths.length ≤ index.toNat) :
    ({ r.selecting paths with program := .picks 0 index } : Resolver).resolve
      parent args =
      .error (.evaluation (.indexOutOfRange index paths.length)) := by
  refine resolve_of_error
    (subject_eq_ok_iff.mpr ⟨fields, v, readArgs, readParent, rfl⟩) ?_
  refine (Program.evaluate_picks deep 0 index _ _).trans ?_
  show Rule.orFail
    (.indexOutOfRange index
      ((paths.map pathSegments).map fun path => (v.path? path).getD .unit).length)
    ((paths.map pathSegments).map fun path =>
      (v.path? path).getD .unit)[index.toNat]? = _
  rw [List.getElem?_map, List.getElem?_map, List.getElem?_eq_none behind,
    List.length_map, List.length_map]
  rfl

/-- An argument is picked by its place among the arguments. -/
theorem resolve_argument (deep : 2 ≤ r.config.maxDepth.toNat)
    (readArgs : Value.ofJsonEntries args = .ok fields)
    (readParent : Value.ofJson parent = .ok v) {name : String} {w : Value}
    (given : fields[index.toNat]? = some (name, w)) :
    ({ r with program := .picks 1 index } : Resolver).resolve parent args =
      .ok w.toJson := by
  refine resolve_of_value
    (subject_eq_ok_iff.mpr ⟨fields, v, readArgs, readParent, rfl⟩) ?_
  refine (Program.evaluate_picks deep 1 index _ _).trans ?_
  show Rule.orFail _ (fields[index.toNat]?.map (·.2)) = _
  rw [given]
  rfl

end Resolver

/-- A selection gives the parts of the parent at its paths, in the order of the
paths, and null for a path that leads to nothing; behind the last path there is
nothing to pick. The arguments keep their order, and no selection touches them. -/
theorem selected_parts {r : Resolver} {paths : List String} {parent : Json}
    {args : List (String × Json)} {subject : Value}
    (deep : 2 ≤ r.config.maxDepth.toNat)
    (reads : (r.selecting paths).subject parent args = .ok subject) :
    (∀ (index : UInt64) (path : String), paths[index.toNat]? = some path →
      ∃ segments, Spells path segments ∧
        (∀ part, parent.walk? segments = some part →
          ∃ v, Value.ofJson part = .ok v ∧
          ({ r.selecting paths with program := .picks 0 index } :
            Resolver).resolve parent args = .ok v.toJson) ∧
        (parent.walk? segments = none →
          ({ r.selecting paths with program := .picks 0 index } :
            Resolver).resolve parent args = .ok .null)) ∧
    (∀ index : UInt64, paths.length ≤ index.toNat →
      ({ r.selecting paths with program := .picks 0 index } : Resolver).resolve
        parent args =
        .error (.evaluation (.indexOutOfRange index paths.length))) ∧
    ∀ (selection : Option (List (List String))) (index : UInt64) (name : String)
      (arg : Json), args[index.toNat]? = some (name, arg) →
        ∃ v, Value.ofJson arg = .ok v ∧
        ({ r with program := .picks 1 index, selection } : Resolver).resolve
          parent args = .ok v.toJson := by
  obtain ⟨fields, v, readArgs, readParent, _⟩ := Resolver.subject_eq_ok_iff.mp reads
  refine ⟨fun index path selected => ?_, fun index behind => ?_,
    fun selection index name arg given => ?_⟩
  · have walks := Value.walk_ofJson readParent (pathSegments path)
    have resolved := Resolver.resolve_selected deep readArgs readParent selected
    refine ⟨pathSegments path, spells_pathSegments path, fun part found => ?_,
      fun absent => ?_⟩
    · rw [found] at walks
      generalize v.path? (pathSegments path) = leads at walks resolved
      cases walks with
      | some reads => exact ⟨_, reads, resolved⟩
    · rw [absent] at walks
      generalize v.path? (pathSegments path) = leads at walks resolved
      cases walks with
      | none => exact resolved
  · exact Resolver.resolve_unselected deep readArgs readParent behind
  · have reads :=
      Value.getElem?_of_forall₂ (Value.ofJsonEntries_eq_ok_iff.mp readArgs)
        index.toNat
    rw [given] at reads
    generalize picked : fields[index.toNat]? = field at reads
    cases reads with
    | @some _ field same =>
      exact ⟨field.2, same.2,
        Resolver.resolve_argument (r := { r with selection }) deep readArgs
        readParent picked⟩

/-- A resolver that selects from `extremes`, with a limit that is just high
enough. -/
def narrow (program : Program) : Resolver :=
  Resolver.selecting { program, config := { maxDepth := 2 } }
    ["owner.name", "ids.01", "ids.x"]

theorem selected_parts_extremes :
    (∃ subject, (narrow .identity).subject extremes [("limit", .null),
      ("after", .boolean true)] = .ok subject) ∧
    (narrow (.picks 0 0)).resolve extremes
      [("limit", .null), ("after", .boolean true)] = .ok (.string "ada") ∧
    (narrow (.picks 0 1)).resolve extremes
      [("limit", .null), ("after", .boolean true)] =
      .ok (Json.ofUInt64 0x8000000000000000) ∧
    (narrow (.picks 0 2)).resolve extremes
      [("limit", .null), ("after", .boolean true)] = .ok .null ∧
    (narrow (.picks 0 3)).resolve extremes
      [("limit", .null), ("after", .boolean true)] =
      .error (.evaluation (.indexOutOfRange 3 3)) ∧
    (narrow (.picks 1 1)).resolve extremes
      [("limit", .null), ("after", .boolean true)] = .ok (.boolean true) := by
  have reads : (narrow .identity).subject extremes
    [("limit", .null), ("after", .boolean true)] = .ok _ := rfl
  obtain ⟨selected, behind, given⟩ :=
    selected_parts (r := { program := .identity, config := { maxDepth := 2 } })
    (Nat.le_refl 2) reads
  refine ⟨⟨_, reads⟩, ?_, ?_, ?_, behind 3 (Nat.le_refl 3), ?_⟩
  · obtain ⟨segments, spelled, found, _⟩ := selected 0 "owner.name" rfl
    cases spells_iff.mp spelled
    obtain ⟨v, read, resolved⟩ := found (.string "ada") rfl
    cases read
    exact resolved
  · obtain ⟨segments, spelled, found, _⟩ := selected 1 "ids.01" rfl
    cases spells_iff.mp spelled
    obtain ⟨v, read, resolved⟩ := found (Json.ofUInt64 0x8000000000000000) rfl
    -- The integer is a decimal in between, and written as an integer again.
    obtain ⟨w, same, written⟩ :=
      Value.exists_ofJson (Json.ofUInt64 0x8000000000000000) trivial
    cases read.symm.trans same
    rw [← written]
    exact resolved
  · obtain ⟨segments, spelled, _, absent⟩ := selected 2 "ids.x" rfl
    cases spells_iff.mp spelled
    exact absent rfl
  · obtain ⟨v, read, resolved⟩ := given (narrow .identity).selection 1 "after"
      (.boolean true) rfl
    cases read
    exact resolved

end FieldExpr
