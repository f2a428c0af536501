import FieldExpr.Capability.Equality
import FieldExpr.Capability.Shape
import FieldExpr.Proofs.Capability.Numeric
import FieldExpr.Proofs.Value.Canonical

/-!
# Values in place of the same values

What the operations make of a value that stands in place of one that is the
same. Numbers, truth values, comparisons and shapes do not tell the two apart.
Selection by position may, but not where both list the fields of their records
in the same order (`Value.InOrder`): there it selects values that are the same.
-/

namespace FieldExpr.Value

/-! ## The order of fields -/

/-- The names of the fields of a record, in their order. -/
def names : Value → List String
  | .record fields => fields.map (·.1)
  | _ => []

mutual

/-- The records in two values that are the same list their fields in the same
order. -/
def InOrder : Value → Value → Prop
  | .sequence as, .sequence bs => InOrderItems as bs
  | .record as, .record bs => as.map (·.1) = bs.map (·.1) ∧ InOrderFields as bs
  | _, _ => True

/-- `InOrder` for the items at each position. -/
def InOrderItems : List Value → List Value → Prop
  | a :: as, b :: bs => a.InOrder b ∧ InOrderItems as bs
  | _, _ => True

/-- `InOrder` for the values of the fields at each position. -/
def InOrderFields : List (String × Value) → List (String × Value) → Prop
  | (_, a) :: as, (_, b) :: bs => a.InOrder b ∧ InOrderFields as bs
  | _, _ => True

end

/-! ## Sameness, one level at a time -/

/-- What two values that are the same have in common at the top. -/
inductive Counterpart : Value → Value → Prop
  | unit : Counterpart .unit .unit
  | boolean (b : Bool) : Counterpart (.boolean b) (.boolean b)
  | integer (n : Int64) : Counterpart (.integer n) (.integer n)
  | decimal {d d' : Decimal} : d.units = d'.units →
    Counterpart (.decimal d) (.decimal d')
  | string (s : String) : Counterpart (.string s) (.string s)
  | sequence {as bs : List Value} : sameItems as bs = true →
    Counterpart (.sequence as) (.sequence bs)
  | record {as bs : List (String × Value)} : as.length = bs.length →
    sameFields as bs = true →
    Counterpart (.record as) (.record bs)

variable {v v' w w' : Value} {ordered : Prop}

theorem counterpart_of_same (same : v.same v' = true) : Counterpart v v' := by
  cases v <;> cases v'
    <;> simp only [Value.same, Bool.false_eq_true, Bool.and_eq_true, beq_iff_eq]
    at same
  case unit.unit => exact .unit
  case boolean.boolean b b' =>
    subst same
    exact .boolean b
  case integer.integer n n' =>
    subst same
    exact .integer n
  case decimal.decimal => exact .decimal (Decimal.same_iff.mp same)
  case string.string s s' =>
    subst same
    exact .string s
  case sequence.sequence => exact .sequence same
  case record.record => exact .record same.1 same.2

theorem same_refl (wellFormed : v.WellFormed) : v.same v = true :=
  (same_iff_canonical v v wellFormed wellFormed).mpr rfl

/-- Comparing values that are the same with values that are the same comes
out the same. -/
theorem same_congr (v_wf : v.WellFormed) (v'_wf : v'.WellFormed)
    (w_wf : w.WellFormed) (w'_wf : w'.WellFormed) (left : v.same v' = true)
    (right : w.same w' = true) : v.same w = v'.same w' := by
  refine Bool.eq_iff_iff.mpr ?_
  rw [same_iff_canonical v w v_wf w_wf, same_iff_canonical v' w' v'_wf w'_wf,
    (same_iff_canonical v v' v_wf v'_wf).mp left,
    (same_iff_canonical w w' w_wf w'_wf).mp right]

theorem kind_eq_of_same (same : v.same v' = true) : v.kind = v'.kind := by
  cases counterpart_of_same same <;> rfl

theorem asBoolean?_eq_of_same (same : v.same v' = true) :
    v.asBoolean? = v'.asBoolean? := by
  cases counterpart_of_same same <;> rfl

theorem length_eq_of_sameItems {as bs : List Value}
    (same : sameItems as bs = true) : as.length = bs.length := by
  induction as generalizing bs with
  | nil =>
    cases bs with
    | nil => rfl
    | cons b bs => cases same
  | cons a as ih =>
    cases bs with
    | nil => cases same
    | cons b bs =>
      have parts : a.same b = true ∧ sameItems as bs = true :=
        (Bool.and_eq_true _ _).mp same
      rw [List.length_cons, List.length_cons, ih parts.2]

theorem size?_eq_of_same (same : v.same v' = true) : v.size? = v'.size? := by
  cases counterpart_of_same same with
  | sequence items => exact congrArg some (length_eq_of_sameItems items)
  | record length fields => exact congrArg some length
  | _ => rfl

/-- A tag reads the same numbers from values that are the same. -/
theorem read?_same (tag : NumericTag) (same : v.same v' = true) :
    Option.Rel Number.Same (tag.read? v) (tag.read? v') := by
  cases counterpart_of_same same with
  | integer n =>
    cases tag with
    | integer => exact .some (.integer n)
    | decimal => exact .some (.decimal rfl)
  | decimal units =>
    cases tag with
    | integer => exact .none
    | decimal => exact .some (.decimal units)
  | _ => cases tag <;> exact .none

/-- Equality under a tag comes out the same for values that are the same. -/
theorem equals?_eq_of_same (tag : EqualityTag) (v_wf : v.WellFormed)
    (v'_wf : v'.WellFormed) (w_wf : w.WellFormed) (w'_wf : w'.WellFormed)
    (left : v.same v' = true) (right : w.same w' = true) :
    tag.equals? v w = tag.equals? v' w' := by
  cases tag with
  | structural => exact congrArg some (same_congr v_wf v'_wf w_wf w'_wf left right)
  | decimal =>
    have first := read?_same .decimal left
    have second := read?_same .decimal right
    show ((NumericTag.decimal.read? v).bind fun a =>
        (NumericTag.decimal.read? w).bind fun b =>
        some (a.compare b == .eq)) =
      ((NumericTag.decimal.read? v').bind fun a =>
        (NumericTag.decimal.read? w').bind fun b =>
        some (a.compare b == .eq))
    generalize NumericTag.decimal.read? v = a at first
    generalize NumericTag.decimal.read? v' = a' at first
    generalize NumericTag.decimal.read? w = b at second
    generalize NumericTag.decimal.read? w' = b' at second
    cases first with
    | none => rfl
    | some first =>
      cases second with
      | none => rfl
      | some second =>
        exact congrArg some (by rw [Number.compare_eq_of_same first second])
  | _ => cases counterpart_of_same left <;> cases counterpart_of_same right <;> rfl

/-! ## Values that stand in for values -/

/-- The values are the same and, if they are said to be `ordered`, list their
fields in the same order. -/
structure Alike (ordered : Prop) (v v' : Value) : Prop where
  left : v.WellFormed
  right : v'.WellFormed
  same : v.same v' = true
  inOrder : ordered → v.InOrder v'

mutual

theorem inOrder_self : (v : Value) → v.InOrder v
  | .sequence items => inOrderItems_self items
  | .record fields => ⟨rfl, inOrderFields_self fields⟩
  | .unit | .boolean _ | .integer _ | .decimal _ | .string _ => trivial

theorem inOrderItems_self : (items : List Value) → InOrderItems items items
  | [] => trivial
  | v :: rest => ⟨inOrder_self v, inOrderItems_self rest⟩

theorem inOrderFields_self :
    (fields : List (String × Value)) → InOrderFields fields fields
  | [] => trivial
  | (_, v) :: rest => ⟨inOrder_self v, inOrderFields_self rest⟩

end

theorem Alike.refl (ordered : Prop) (wellFormed : v.WellFormed) :
    Alike ordered v v where
  left := wellFormed
  right := wellFormed
  same := same_refl wellFormed
  inOrder _ := inOrder_self v

theorem Alike.ofNumber {n n' : Number} (same : n.Same n') :
    Alike ordered n.toValue n'.toValue := by
  cases same with
  | integer n => exact .refl ordered trivial
  | decimal units =>
    exact ⟨trivial, trivial, Decimal.same_iff.mpr units, fun _ => trivial⟩

/-- Rebuilding in a shape fails for both values or gives values that are alike. -/
theorem Alike.rebuild? (shape : Shape) (alike : Alike ordered v v') :
    Option.Rel (Alike ordered) (shape.rebuild? v) (shape.rebuild? v') := by
  have counterpart := counterpart_of_same alike.same
  cases shape with
  | any => exact .some alike
  | pair =>
    cases counterpart with
    | @sequence as bs items =>
      have lengths := length_eq_of_sameItems items
      match as, bs, lengths with
      | [], [], _ => exact .none
      | [_], [_], _ => exact .none
      | [_, _], [_, _], _ => exact .some alike
      | _ :: _ :: _ :: _, _ :: _ :: _ :: _, _ => exact .none
    | _ => exact .none
  | decimal =>
    cases counterpart with
    | integer n => exact .some (.refl ordered trivial)
    | decimal units => exact .some alike
    | _ => exact .none
  | _ =>
    cases counterpart
    all_goals first | exact .some alike | exact .none

/-! ## Selection by position -/

/-- The elements of a composite, each at its position. -/
def elements : Value → List Value
  | .sequence items => items
  | .record fields => fields.map (·.2)
  | _ => []

theorem element?_eq (v : Value) (index : Nat) :
    v.element? index = v.elements[index]? := by
  cases v with
  | record fields => exact List.getElem?_map.symm
  | _ => rfl

theorem wellFormedItems_map :
    {fields : List (String × Value)} → WellFormedFields fields →
    WellFormedItems (fields.map (·.2))
  | [], _ => trivial
  | _ :: _, ⟨head, tail⟩ => ⟨head, wellFormedItems_map tail⟩

theorem WellFormed.elements (wellFormed : v.WellFormed) :
    WellFormedItems v.elements := by
  cases v with
  | sequence items => exact wellFormed
  | record fields => exact wellFormedItems_map wellFormed.2
  | _ => trivial

theorem length_elements_eq_of_same (same : v.same v' = true) :
    v.elements.length = v'.elements.length := by
  cases counterpart_of_same same with
  | sequence items => exact length_eq_of_sameItems items
  | record length fields => simpa [elements] using length
  | _ => rfl

/-- A field that no name asks for does not matter. -/
theorem sameFields_cons {as bs : List (String × Value)} {name : String} {b : Value}
    (absent : name ∉ as.map (·.1)) :
    sameFields as ((name, b) :: bs) = sameFields as bs := by
  induction as with
  | nil => rfl
  | cons entry as ih =>
    obtain ⟨other, a⟩ := entry
    obtain ⟨ne, absent⟩ : name ≠ other ∧ name ∉ as.map (·.1) := by
      simpa only [List.map_cons, List.mem_cons, not_or] using absent
    have skip : ((name, b) :: bs).lookup other = bs.lookup other := by
      rw [Json.lookup_cons_if, if_neg ?_]
      exact fun same => ne same.symm
    unfold sameFields
    rw [skip, ih absent]

/-- Records with the same fields in the same order have the same values in
the same order. -/
theorem sameItems_of_sameFields {as bs : List (String × Value)}
    (names : as.map (·.1) = bs.map (·.1)) (distinct : (as.map (·.1)).Nodup)
    (same : sameFields as bs = true) :
    sameItems (as.map (·.2)) (bs.map (·.2)) = true := by
  induction as generalizing bs with
  | nil =>
    cases bs with
    | nil => rfl
    | cons b bs => cases names
  | cons entry as ih =>
    cases bs with
    | nil => cases names
    | cons entry' bs =>
      obtain ⟨name, a⟩ := entry
      obtain ⟨name', b⟩ := entry'
      obtain ⟨same_name, rest⟩ : name = name' ∧ as.map (·.1) = bs.map (·.1) :=
        List.cons.inj names
      subst same_name
      obtain ⟨absent, distinct⟩ := List.nodup_cons.mp distinct
      unfold sameFields at same
      rw [List.lookup_cons_self, sameFields_cons absent] at same
      obtain ⟨head, tail⟩ := (Bool.and_eq_true _ _).mp same
      exact (Bool.and_eq_true _ _).mpr ⟨head, ih rest distinct tail⟩

/-- Values that are the same have the same elements, if they do not list the
fields of a record in different orders. -/
theorem sameItems_elements (wellFormed : v.WellFormed) (same : v.same v' = true)
    (names : v.names = v'.names) : sameItems v.elements v'.elements = true := by
  cases counterpart_of_same same with
  | sequence items => exact items
  | record length fields => exact sameItems_of_sameFields names wellFormed.1 fields
  | _ => rfl

theorem inOrderItems_map : {as bs : List (String × Value)} → InOrderFields as bs →
    InOrderItems (as.map (·.2)) (bs.map (·.2))
  | [], _, _ => trivial
  | _ :: _, [], _ => trivial
  | _ :: _, _ :: _, ⟨head, tail⟩ => ⟨head, inOrderItems_map tail⟩

theorem InOrder.elements (inOrder : v.InOrder v') (same : v.same v' = true) :
    v.names = v'.names ∧ InOrderItems v.elements v'.elements := by
  cases counterpart_of_same same with
  | sequence items => exact ⟨rfl, inOrder⟩
  | record length fields => exact ⟨inOrder.1, inOrderItems_map inOrder.2⟩
  | _ => exact ⟨rfl, trivial⟩

/-- Two elements that selection by position takes: they are alike, or they are
not the same, and then nothing was said to be in order. -/
def Taken (ordered : Prop) (w w' : Value) : Prop :=
  Alike ordered w w' ∨ ¬ ordered ∧ w.same w' = false

theorem taken_items {as bs : List Value} (left : WellFormedItems as)
    (right : WellFormedItems bs) (lengths : as.length = bs.length)
    (inOrder : ordered → sameItems as bs = true ∧ InOrderItems as bs)
    (index : Nat) :
    Option.Rel (Taken ordered) as[index]? bs[index]? := by
  induction as generalizing bs index with
  | nil =>
    cases bs with
    | nil => exact .none
    | cons b bs => cases lengths
  | cons a as ih =>
    cases bs with
    | nil => cases lengths
    | cons b bs =>
      have parts : ordered → (a.same b = true ∧ a.InOrder b) ∧
          sameItems as bs = true ∧ InOrderItems as bs := by
        intro holds
        obtain ⟨same, order⟩ := inOrder holds
        obtain ⟨head, tail⟩ := (Bool.and_eq_true _ _).mp same
        exact ⟨⟨head, order.1⟩, tail, order.2⟩
      cases index with
      | zero =>
        refine .some ?_
        cases same : a.same b with
        | true => exact .inl ⟨left.1, right.1, same, fun holds => (parts holds).1.2⟩
        | false =>
          refine .inr ⟨fun holds => ?_, same⟩
          rw [(parts holds).1.1] at same
          cases same
      | succ index =>
        exact ih left.2 right.2 (Nat.succ.inj lengths)
          (fun holds => (parts holds).2) index

/-- From alike values selection by position takes elements that are alike,
unless nothing says that the values list their fields in the same order. -/
theorem Alike.element? (alike : Alike ordered v v') (index : Nat) :
    Option.Rel (Taken ordered) (v.element? index) (v'.element? index) := by
  obtain ⟨left, right, same, inOrder⟩ := alike
  rw [element?_eq, element?_eq]
  refine taken_items left.elements right.elements
    (length_elements_eq_of_same same) ?_ index
  intro holds
  obtain ⟨names, items⟩ := (inOrder holds).elements same
  exact ⟨sameItems_elements left same names, items⟩

theorem same_of_sameItems {as bs : List Value} (same : sameItems as bs = true)
    {index : Nat} (first : as[index]? = some w)
    (second : bs[index]? = some w') : w.same w' = true := by
  induction as generalizing bs index with
  | nil => cases first
  | cons a as ih =>
    cases bs with
    | nil => cases same
    | cons b bs =>
      obtain ⟨head, tail⟩ : a.same b = true ∧ sameItems as bs = true :=
        (Bool.and_eq_true _ _).mp same
      cases index with
      | zero =>
        cases first
        cases second
        exact head
      | succ index => exact ih tail first second

/-- Where values that are the same have different elements at one position, they
are records that list their fields in different orders. -/
theorem names_ne_of_element? (wellFormed : v.WellFormed)
    (same : v.same v' = true) {index : Nat} (first : v.element? index = some w)
    (second : v'.element? index = some w') (apart : w.same w' = false) :
    v.names ≠ v'.names := by
  intro names
  rw [element?_eq] at first second
  rw [same_of_sameItems (sameItems_elements wellFormed same names) first second]
    at apart
  cases apart

end FieldExpr.Value
