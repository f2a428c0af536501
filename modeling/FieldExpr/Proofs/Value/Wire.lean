import FieldExpr.Proofs.Json.Fractions
import FieldExpr.Proofs.Value.Canonical
import FieldExpr.Proofs.Value.Documents

/-!
# What values come back as

A value that is written as a document and read again comes back with the same
shape. Its decimals are the only parts that can change: those that are integers
of 64 bits or have few digits are worth the same again, others are rounded to a
double on the way or refused (`lossless_of_carried`).
-/

namespace FieldExpr

/-! ## Decimals -/

namespace Decimal

/-- A number, integer or decimal, is worth as much as a decimal. -/
def Equals (d : Decimal) : Value → Prop
  | .integer n => d.units = n.toInt * (tenPow maxScale : Nat)
  | .decimal e => e.same d = true
  | _ => False

/-- The decimals that documents carry: the integers of 64 bits, signed or
unsigned, and among the others those whose digits take less than 52 bits, with
at most 22 of them behind the point. -/
def Carried (d : Decimal) : Prop :=
  if d.normalize.scale = 0 then
    -0x8000000000000000 ≤ signed d.normalize.negative d.normalize.mantissa ∧
      signed d.normalize.negative d.normalize.mantissa < 0x10000000000000000
  else d.normalize.mantissa < 0x10000000000000 ∧ d.normalize.scale ≤ 22

instance (d : Decimal) : Decidable d.Carried :=
  inferInstanceAs (Decidable (if d.normalize.scale = 0 then
    -0x8000000000000000 ≤ signed d.normalize.negative d.normalize.mantissa ∧
      signed d.normalize.negative d.normalize.mantissa < 0x10000000000000000
  else d.normalize.mantissa < 0x10000000000000 ∧ d.normalize.scale ≤ 22))

/-- The text of a normal decimal of few digits, some of them behind the point,
is a double whose text is the decimal. -/
theorem IsNormal.exists_double {d : Decimal} (normal : d.IsNormal)
    (fraction : d.scale ≠ 0) (small : d.mantissa < 0x10000000000000)
    (places : d.scale ≤ 22) :
    ∃ x, Json.Number.ofText? d.text = some (.double x) ∧
    ofText? x.text = some d := by
  have last : d.mantissa % 10 ≠ 0 := normal.last.resolve_left fraction
  have pos : 0 < d.mantissa := Nat.pos_of_ne_zero fun zero => last (by rw [zero])
  have behind : 0 < d.scale := Nat.pos_of_ne_zero fraction
  obtain ⟨row, padding, length, value, digit⟩ := padded_row d.mantissa behind
  obtain ⟨x, double, sign, bits, reads⟩ :=
    Json.doubleOf?_eq d.negative pos small behind places
  refine ⟨x, ?_, ?_⟩
  · unfold text
    dsimp only
    rw [if_neg fraction, padding, List.append_assoc]
    refine Json.ofText?_fraction d.negative ?_ digit ?_ ?_ ?_
    · rintro rfl
      exact fraction length.symm
    · rw [value]
      exact Nat.lt_trans small (by decide)
    · rw [length]
      exact d.scale_le
    · rw [value, length, double]
  · have shortest :
        x.shortest = ⟨d.mantissa, (Text.natural d.mantissa).length - 1 -
          d.scale⟩ := by
      rw [Binary64.shortest_eq bits reads small last]
      congr 1
      show -(d.scale : ℤ) + (Text.natural d.mantissa).length - 1 = _
      ring
    have nonzero : x.isZero = false := by
      refine beq_eq_false_iff_ne.mpr ?_
      omega
    rw [Binary64.ofText?_text shortest nonzero pos small behind d.scale_le, sign]
    exact dif_pos ⟨d.mantissa_lt, d.scale_le⟩

/-- A decimal that documents carry is worth the same when it comes back. -/
theorem Carried.exists_ofJson {d : Decimal} (carried : d.Carried) :
    ∃ v, Value.ofJson (Value.decimalToJson d) = .ok v ∧ d.Equals v := by
  unfold Carried at carried
  split at carried
  · rename_i integral
    obtain ⟨low, high⟩ := carried
    have worth : d.units = signed d.normalize.negative d.normalize.mantissa *
        (tenPow maxScale : Nat) := by
      rw [← units_normalize, units, unitsAt_eq, integral, signed_mul, Nat.sub_zero]
    rw [Value.decimalToJson_of_units low high worth, Value.ofJson_integer low high]
    refine ⟨_, rfl, ?_⟩
    split
    · rename_i small
      show d.units = (Int64.ofInt _).toInt * _
      rw [Int64.toInt_ofInt_of_le low small, worth]
    · refine same_iff.mpr ?_
      rw [units_ofInt, worth]
  · rename_i fraction
    obtain ⟨x, written, read⟩ :=
      (normalize_isNormal d).exists_double fraction carried.1 carried.2
    have number : Decimal.ofJsonNumber (.double x) = .ok d.normalize := by
      unfold Decimal.ofJsonNumber
      dsimp only
      rw [read]
    refine ⟨.decimal d.normalize, ?_, same_iff.mpr (units_normalize d)⟩
    unfold Value.decimalToJson
    rw [written]
    show (Decimal.ofJsonNumber (.double x)).map Value.decimal = _
    rw [number]
    rfl

end Decimal

/-! ## Values -/

namespace Value

mutual

/-- The decimals in a value. -/
def decimals : Value → List Decimal
  | .decimal d => [d]
  | .sequence items => decimalsItems items
  | .record fields => decimalsFields fields
  | _ => []

/-- The decimals in items. -/
def decimalsItems : List Value → List Decimal
  | [] => []
  | v :: rest => v.decimals ++ decimalsItems rest

/-- The decimals in the values of fields. -/
def decimalsFields : List (String × Value) → List Decimal
  | [] => []
  | (_, v) :: rest => v.decimals ++ decimalsFields rest

end

mutual

/-- The value with other values in the places of its decimals. -/
def mapDecimals (f : Decimal → Value) : Value → Value
  | .decimal d => f d
  | .sequence items => .sequence (mapDecimalsItems f items)
  | .record fields => .record (mapDecimalsFields f fields)
  | other => other

/-- `mapDecimals` on items. -/
def mapDecimalsItems (f : Decimal → Value) : List Value → List Value
  | [] => []
  | v :: rest => v.mapDecimals f :: mapDecimalsItems f rest

/-- `mapDecimals` on the values of fields. -/
def mapDecimalsFields (f : Decimal → Value) :
    List (String × Value) → List (String × Value)
  | [] => []
  | (name, v) :: rest => (name, v.mapDecimals f) :: mapDecimalsFields f rest

end

/-- A value loses no numbers on its way through a document: it comes back
with numbers of the same worth in the places of its decimals, and is the
same otherwise. -/
def Lossless (v : Value) : Prop :=
  ∃ (w : Value) (f : Decimal → Value), ofJson v.toJson = .ok w ∧
    (∀ d ∈ v.decimals, d.Equals (f d)) ∧
    w.same (v.mapDecimals f) = true

/-! ## Parts -/

/-- What holds for a well-formed value if it holds for its items and fields
holds for all well-formed values. -/
@[elab_as_elim]
theorem WellFormed.byParts {motive : (v : Value) → v.WellFormed → Prop}
    (unit : motive .unit trivial) (boolean : ∀ b, motive (.boolean b) trivial)
    (integer : ∀ n, motive (.integer n) trivial)
    (decimal : ∀ d, motive (.decimal d) trivial)
    (string : ∀ s, motive (.string s) trivial)
    (sequence : ∀ items wellFormed (parts : ∀ v ∈ items, v.WellFormed),
      (∀ v mem, motive v (parts v mem)) →
      motive (.sequence items) wellFormed)
    (record : ∀ fields wellFormed (parts : ∀ field ∈ fields,
      field.2.WellFormed), (fields.map (·.1)).Nodup →
      (∀ field mem, motive field.2 (parts field mem)) →
      motive (.record fields) wellFormed)
    (v : Value) (wellFormed : v.WellFormed) : motive v wellFormed := by
  refine @Value.rec (fun v => ∀ wellFormed, motive v wellFormed)
    (fun items => ∀ v ∈ items, ∀ wellFormed, motive v wellFormed)
    (fun fields => ∀ field ∈ fields, ∀ wellFormed, motive field.2 wellFormed)
    (fun field => ∀ wellFormed, motive field.2 wellFormed)
    (fun _ => unit) (fun b _ => boolean b) (fun n _ => integer n)
    (fun d _ => decimal d) (fun s _ => string s)
    ?_ ?_ ?_ ?_ ?_ ?_ ?_ v wellFormed
  · intro items holds wellFormed
    have parts := (wellFormedItems_iff items).mp wellFormed
    exact sequence items wellFormed parts fun v mem => holds v mem (parts v mem)
  · intro fields holds wellFormed
    have parts := (wellFormedFields_iff fields).mp wellFormed.2
    exact record fields wellFormed parts wellFormed.1 fun field mem =>
      holds field mem (parts field mem)
  · simp
  · intro first rest head tail
    exact List.forall_mem_cons.mpr ⟨head, tail⟩
  · simp
  · intro first rest head tail
    exact List.forall_mem_cons.mpr ⟨head, tail⟩
  · intro name v holds
    exact holds

theorem mapDecimalsItems_eq (f : Decimal → Value) (items : List Value) :
    mapDecimalsItems f items = items.map (mapDecimals f) := by
  induction items with
  | nil => rfl
  | cons v rest ih => rw [mapDecimalsItems, ih, List.map_cons]

theorem mapDecimalsFields_eq (f : Decimal → Value)
    (fields : List (String × Value)) :
    mapDecimalsFields f fields = fields.map fun entry =>
      (entry.1, entry.2.mapDecimals f) := by
  induction fields with
  | nil => rfl
  | cons entry rest ih =>
    show (entry.1, entry.2.mapDecimals f) :: mapDecimalsFields f rest = _
    rw [ih, List.map_cons]

theorem mem_decimalsItems {d : Decimal} {items : List Value} :
    d ∈ decimalsItems items ↔ ∃ v ∈ items, d ∈ v.decimals := by
  induction items with
  | nil => simp [decimalsItems]
  | cons v rest ih =>
    rw [decimalsItems, List.mem_append, ih, List.exists_mem_cons_iff]

theorem mem_decimalsFields {d : Decimal} {fields : List (String × Value)} :
    d ∈ decimalsFields fields ↔ ∃ entry ∈ fields, d ∈ entry.2.decimals := by
  induction fields with
  | nil => simp [decimalsFields]
  | cons entry rest ih =>
    show d ∈ entry.2.decimals ++ decimalsFields rest ↔ _
    rw [List.mem_append, ih, List.exists_mem_cons_iff]

theorem canonicalItems_eq (items : List Value) :
    canonicalItems items = items.map canonical := by
  induction items with
  | nil => rfl
  | cons v rest ih => rw [canonicalItems, ih, List.map_cons]

theorem toJsonItems_eq (items : List Value) :
    toJsonItems items = items.map toJson := by
  induction items with
  | nil => rfl
  | cons v rest ih => rw [toJsonItems, ih, List.map_cons]

theorem toJsonFields_eq (fields : List (String × Value)) :
    toJsonFields fields = fields.map fun entry => (entry.1, entry.2.toJson) := by
  induction fields with
  | nil => rfl
  | cons entry rest ih =>
    show (entry.1, entry.2.toJson) :: toJsonFields rest = _
    rw [ih, List.map_cons]

/-- What a decimal comes back as, if it comes back. -/
def back (d : Decimal) : Value :=
  (ofJson (decimalToJson d)).toOption.getD .unit

theorem back_eq {d : Decimal} {v : Value}
    (reads : ofJson (decimalToJson d) = .ok v) : back d = v := by
  unfold back
  rw [reads]
  rfl

theorem wellFormed_of_decimalToJson {d : Decimal} {v : Value}
    (reads : ofJson (decimalToJson d) = .ok v) :
    v.WellFormed := by
  unfold decimalToJson at reads
  split at reads
  · rename_i n _
    unfold ofJson at reads
    cases small : n.toInt64? with
    | some m =>
      rw [small] at reads
      cases reads
      trivial
    | none =>
      rw [small] at reads
      obtain ⟨e, _, rfl⟩ := map_eq_ok_iff.mp reads
      trivial
  · cases reads
    trivial

/-- Every element has a counterpart exactly when all of them together have. -/
theorem exists_forall₂_iff {α β : Type} {R : α → β → Prop} {as : List α} :
    (∃ bs, List.Forall₂ R as bs) ↔ ∀ a ∈ as, ∃ b, R a b := by
  induction as with
  | nil => simp
  | cons a as ih =>
    rw [List.forall_mem_cons, ← ih]
    constructor
    · rintro ⟨_, first⟩
      obtain ⟨b, bs, related, others, rfl⟩ := List.forall₂_cons_left_iff.mp first
      exact ⟨⟨b, related⟩, bs, others⟩
    · rintro ⟨⟨b, related⟩, bs, others⟩
      exact ⟨b :: bs, .cons related others⟩

theorem toJson_record (fields : List (String × Value)) :
    (record fields).toJson =
      .object ((Json.ordered fields).map fun entry =>
      (entry.1, entry.2.toJson)) := by
  show Json.object (Json.ordered (toJsonFields fields)) = _
  rw [toJsonFields_eq, Json.ordered_map]

theorem ofJson_toJson_integer (n : Int64) :
    ofJson (integer n).toJson = .ok (.integer n) := by
  have fits : (Json.Number.ofInt64 n).toInt64? = some n := Json.asInt64?_ofInt64 n
  show ofJson (.number (.ofInt64 n)) = _
  unfold ofJson
  rw [fits]

/-- Items come back one by one. -/
theorem ofJson_toJson_sequence {items : List Value} {w : Value} :
    ofJson (sequence items).toJson = .ok w ↔
    ∃ ws, List.Forall₂ (fun v w => ofJson v.toJson = .ok w) items ws ∧
    sequence ws = w := by
  show (ofJsonItems (toJsonItems items)).map sequence = .ok w ↔ _
  simp only [map_eq_ok_iff, ofJsonItems_eq_ok_iff, toJsonItems_eq,
    List.forall₂_map_left_iff]

/-- Fields come back one by one, under their names. -/
theorem ofJson_toJson_record {fields : List (String × Value)} {w : Value} :
    ofJson (record fields).toJson = .ok w ↔
    ∃ ws, List.Forall₂ (fun field w => field.1 = w.1 ∧
      ofJson field.2.toJson = .ok w.2) (Json.ordered fields) ws ∧
      record ws = w := by
  rw [toJson_record]
  show (ofJsonEntries ((Json.ordered fields).map _)).map record = .ok w ↔ _
  simp only [map_eq_ok_iff, ofJsonEntries_eq_ok_iff, List.forall₂_map_left_iff]

/-- A value comes back exactly when all its decimals do. -/
theorem exists_ofJson_toJson_iff (v : Value) (wellFormed : v.WellFormed) :
    (∃ w, ofJson v.toJson = .ok w) ↔ ∀ d ∈ v.decimals, ∃ w,
      ofJson (decimalToJson d) = .ok w := by
  induction v, wellFormed using WellFormed.byParts with
  | unit => exact iff_of_true ⟨_, rfl⟩ (by simp [decimals])
  | boolean b => exact iff_of_true ⟨_, rfl⟩ (by simp [decimals])
  | integer n => exact iff_of_true ⟨_, ofJson_toJson_integer n⟩ (by simp [decimals])
  | string s => exact iff_of_true ⟨_, rfl⟩ (by simp [decimals])
  | decimal d => simp [decimals, toJson]
  | sequence items _ _ ih =>
    have parts : (∃ w, ofJson (sequence items).toJson = .ok w) ↔
        ∀ v ∈ items, ∃ w, ofJson v.toJson = .ok w := by
      simp only [ofJson_toJson_sequence]
      rw [exists_comm]
      simp [exists_forall₂_iff]
    rw [parts]
    show _ ↔ ∀ d ∈ decimalsItems items, _
    simp only [mem_decimalsItems, forall_exists_index, and_imp]
    constructor
    · intro all d v mem part
      exact (ih v mem).mp (all v mem) d part
    · intro all v mem
      exact (ih v mem).mpr fun d part => all d v mem part
  | record fields _ _ distinct ih =>
    have parts : (∃ w, ofJson (record fields).toJson = .ok w) ↔
        ∀ field ∈ fields, ∃ w, ofJson field.2.toJson = .ok w := by
      simp only [ofJson_toJson_record]
      rw [exists_comm]
      simp [exists_forall₂_iff, Json.mem_ordered distinct]
    rw [parts]
    show _ ↔ ∀ d ∈ decimalsFields fields, _
    simp only [mem_decimalsFields, forall_exists_index, and_imp]
    constructor
    · intro all d field mem part
      exact (ih field mem).mp (all field mem) d part
    · intro all field mem
      exact (ih field mem).mpr fun d part => all d field mem part

theorem map_eq_map_of_forall₂ {α β γ : Type} {R : α → β → Prop} {f : α → γ}
    {g : β → γ} {as : List α} {bs : List β} (related : List.Forall₂ R as bs)
    (same : ∀ a ∈ as, ∀ b, R a b → g b = f a) : bs.map g = as.map f := by
  induction related with
  | nil => rfl
  | cons first others ih =>
    rw [List.forall_mem_cons] at same
    rw [List.map_cons, List.map_cons, same.1 _ first, ih same.2]

theorem forall_of_forall₂ {α β : Type} {R : α → β → Prop} {P : β → Prop}
    {as : List α} {bs : List β} (related : List.Forall₂ R as bs)
    (holds : ∀ a ∈ as, ∀ b, R a b → P b) : ∀ b ∈ bs, P b := by
  induction related with
  | nil => simp
  | cons first others ih =>
    rw [List.forall_mem_cons] at holds ⊢
    exact ⟨holds.1 _ first, ih holds.2⟩

/-- A value comes back with what its decimals come back as, and is the
same otherwise. -/
theorem canonical_of_ofJson_toJson (v : Value) (wellFormed : v.WellFormed)
    {w : Value} (reads : ofJson v.toJson = .ok w) :
    w.WellFormed ∧ w.canonical = (v.mapDecimals back).canonical := by
  induction v, wellFormed using WellFormed.byParts generalizing w with
  | unit =>
    cases reads
    exact ⟨trivial, rfl⟩
  | boolean b =>
    cases reads
    exact ⟨trivial, rfl⟩
  | integer n =>
    cases (ofJson_toJson_integer n).symm.trans reads
    exact ⟨trivial, rfl⟩
  | string s =>
    cases reads
    exact ⟨trivial, rfl⟩
  | decimal d =>
    refine ⟨wellFormed_of_decimalToJson reads, ?_⟩
    show w.canonical = (back d).canonical
    rw [back_eq reads]
  | sequence items _ _ ih =>
    obtain ⟨ws, related, rfl⟩ := ofJson_toJson_sequence.mp reads
    refine ⟨(wellFormedItems_iff ws).mpr ?_, ?_⟩
    · exact forall_of_forall₂ related fun v mem w reads => (ih v mem reads).1
    · show sequence (canonicalItems ws) =
        sequence (canonicalItems (mapDecimalsItems back items))
      rw [canonicalItems_eq, canonicalItems_eq, mapDecimalsItems_eq, List.map_map]
      exact congrArg sequence
        (map_eq_map_of_forall₂ related fun v mem w reads => (ih v mem reads).2)
  | record fields _ _ _ ih =>
    obtain ⟨ws, related, rfl⟩ := ofJson_toJson_record.mp reads
    have kept : ∀ field ∈ Json.ordered fields, ∀ w : String × Value,
        field.1 = w.1 ∧ ofJson field.2.toJson = .ok w.2 →
        w.2.WellFormed ∧ w.2.canonical = (field.2.mapDecimals back).canonical := by
      intro field mem w reads
      exact ih field (Json.mem_of_mem_ordered mem) reads.2
    have names : ws.map (·.1) = (Json.ordered fields).map (·.1) :=
      map_eq_map_of_forall₂ related fun field _ w reads => reads.1.symm
    refine ⟨⟨?_, (wellFormedFields_iff ws).mpr ?_⟩, ?_⟩
    · rw [names]
      exact (Json.ordered_ascending fields).distinct
    · exact forall_of_forall₂ related fun field mem w reads =>
        (kept field mem w reads).1
    · show record (Json.ordered (canonicalFields ws)) =
        record (Json.ordered (canonicalFields (mapDecimalsFields back fields)))
      have values : canonicalFields ws =
          Json.ordered (canonicalFields (mapDecimalsFields back fields)) := by
        rw [canonicalFields_eq, canonicalFields_eq, mapDecimalsFields_eq,
          List.map_map]
        show _ = Json.ordered
          (fields.map fun field => (field.1, (field.2.mapDecimals back).canonical))
        refine Eq.trans ?_
          (Json.ordered_map (fun v => (v.mapDecimals back).canonical) fields).symm
        exact map_eq_map_of_forall₂ related fun field mem w reads =>
          Prod.ext reads.1.symm (kept field mem w reads).2
      rw [values, (Json.ordered_ascending _).ordered_eq]

/-- Where values with other values in the places of their decimals have one
canonical form, these values have. -/
theorem canonical_eq_of_mapDecimals {f g : Decimal → Value} (v : Value)
    (wellFormed : v.WellFormed)
    (same : (v.mapDecimals f).canonical = (v.mapDecimals g).canonical) :
    ∀ d ∈ v.decimals, (f d).canonical = (g d).canonical := by
  induction v, wellFormed using WellFormed.byParts with
  | unit => simp [decimals]
  | boolean b => simp [decimals]
  | integer n => simp [decimals]
  | string s => simp [decimals]
  | decimal d =>
    intro d' mem
    rw [List.mem_singleton.mp mem]
    exact same
  | sequence items _ _ ih =>
    have same : canonicalItems (mapDecimalsItems f items) =
        canonicalItems (mapDecimalsItems g items) :=
      Value.sequence.inj same
    rw [canonicalItems_eq, canonicalItems_eq, mapDecimalsItems_eq,
      mapDecimalsItems_eq, List.map_map, List.map_map,
      List.map_inj_left] at same
    intro d mem
    obtain ⟨v, part, mem⟩ := mem_decimalsItems.mp mem
    exact ih v part (same v part) d mem
  | record fields _ _ distinct ih =>
    have same : Json.ordered (canonicalFields (mapDecimalsFields f fields)) =
        Json.ordered (canonicalFields (mapDecimalsFields g fields)) :=
      Value.record.inj same
    have values : ∀ h : Decimal → Value,
        Json.ordered (canonicalFields (mapDecimalsFields h fields)) =
        (Json.ordered fields).map fun field =>
          (field.1, (field.2.mapDecimals h).canonical) := by
      intro h
      rw [canonicalFields_eq, mapDecimalsFields_eq, List.map_map]
      exact Json.ordered_map (fun v => (v.mapDecimals h).canonical) fields
    rw [values, values, List.map_inj_left] at same
    intro d mem
    obtain ⟨field, part, mem⟩ := mem_decimalsFields.mp mem
    have same := (Prod.mk.inj (same field ((Json.mem_ordered distinct).mpr part))).2
    exact ih field part same d mem

theorem WellFormed.mapDecimals {f : Decimal → Value} (v : Value)
    (wellFormed : v.WellFormed) (parts : ∀ d ∈ v.decimals, (f d).WellFormed) :
    (v.mapDecimals f).WellFormed := by
  induction v, wellFormed using WellFormed.byParts with
  | unit => trivial
  | boolean b => trivial
  | integer n => trivial
  | string s => trivial
  | decimal d => exact parts d List.mem_cons_self
  | sequence items _ _ ih =>
    show WellFormedItems (mapDecimalsItems f items)
    rw [mapDecimalsItems_eq, wellFormedItems_iff, List.forall_mem_map]
    intro v part
    exact ih v part fun d mem => parts d (mem_decimalsItems.mpr ⟨v, part, mem⟩)
  | record fields _ _ distinct ih =>
    show ((mapDecimalsFields f fields).map (·.1)).Nodup ∧
      WellFormedFields (mapDecimalsFields f fields)
    rw [mapDecimalsFields_eq, wellFormedFields_iff, List.forall_mem_map,
      List.map_map]
    refine ⟨distinct, fun field part => ?_⟩
    exact ih field part fun d mem =>
      parts d (mem_decimalsFields.mpr ⟨field, part, mem⟩)

theorem equals_canonical {d : Decimal} {v : Value} :
    d.Equals v.canonical ↔ d.Equals v := by
  cases v with
  | decimal e =>
    show e.normalize.same d = true ↔ e.same d = true
    rw [Decimal.same_iff, Decimal.same_iff, Decimal.units_normalize]
  | _ => rfl

theorem wellFormed_of_equals {d : Decimal} {v : Value} (equals : d.Equals v) :
    v.WellFormed := by
  cases v <;> trivial

/-- A value loses no numbers exactly when each of its decimals comes back as a
number that is worth the same. -/
theorem lossless_iff {v : Value} (wellFormed : v.WellFormed) :
    v.Lossless ↔ ∀ d ∈ v.decimals, ∃ w, ofJson (decimalToJson d) = .ok w ∧
    d.Equals w := by
  constructor
  · rintro ⟨w, f, reads, equals, same⟩ d mem
    obtain ⟨u, readsBack⟩ :=
      (exists_ofJson_toJson_iff v wellFormed).mp ⟨w, reads⟩ d mem
    obtain ⟨formed, comesBack⟩ := canonical_of_ofJson_toJson v wellFormed reads
    have replaced : (v.mapDecimals f).WellFormed :=
      WellFormed.mapDecimals v wellFormed fun d mem =>
        wellFormed_of_equals (equals d mem)
    have forms := comesBack.symm.trans
      ((same_iff_canonical w _ formed replaced).mp same)
    have form : u.canonical = (f d).canonical := by
      rw [← back_eq readsBack]
      exact canonical_eq_of_mapDecimals v wellFormed forms d mem
    refine ⟨u, readsBack, equals_canonical.mp ?_⟩
    rw [form]
    exact equals_canonical.mpr (equals d mem)
  · intro parts
    have equals : ∀ d ∈ v.decimals, d.Equals (back d) := by
      intro d mem
      obtain ⟨u, readsBack, equal⟩ := parts d mem
      rwa [back_eq readsBack]
    obtain ⟨w, reads⟩ := (exists_ofJson_toJson_iff v wellFormed).mpr fun d mem =>
      (parts d mem).imp fun _ readsBack => readsBack.1
    obtain ⟨formed, comesBack⟩ := canonical_of_ofJson_toJson v wellFormed reads
    have replaced : (v.mapDecimals back).WellFormed :=
      WellFormed.mapDecimals v wellFormed fun d mem =>
        wellFormed_of_equals (equals d mem)
    exact ⟨w, back, reads, equals,
      (same_iff_canonical w _ formed replaced).mpr comesBack⟩

end Value

/-- Only decimals can lose worth on the way through a document: a value loses no
numbers exactly when none of its decimals, alone, loses any. The integers of 64
bits and the decimals of few digits lose none. -/
theorem lossless_of_carried {v : Value} (wellFormed : v.WellFormed) :
    (v.Lossless ↔ ∀ d ∈ v.decimals, (Value.decimal d).Lossless) ∧
    ((∀ d ∈ v.decimals, d.Carried) → v.Lossless) := by
  have alone : ∀ d : Decimal, (Value.decimal d).Lossless ↔
      ∃ w, Value.ofJson (Value.decimalToJson d) = .ok w ∧ d.Equals w := by
    intro d
    rw [Value.lossless_iff (v := .decimal d) trivial]
    exact List.forall_mem_singleton
  refine ⟨?_, fun carried => ?_⟩
  · simp only [alone]
    exact Value.lossless_iff wellFormed
  · exact (Value.lossless_iff wellFormed).mpr fun d mem =>
      (carried d mem).exists_ofJson

/-- A measurement with fifteen digits, fourteen of them behind the point. -/
def measurement : Decimal :=
  { negative := true, mantissa := 271828182845905, scale := 14 }

/-- A record of decimals that documents carry: a measurement, and an integer
that is too great for a signed one. -/
def reading : Value :=
  .record [("error", .decimal measurement),
    ("ticks", .sequence [.unit, .decimal (.ofInt 0xFFFFFFFFFFFFFFFF (by decide))])]

theorem lossless_of_carried_reading :
    reading.WellFormed ∧ (∀ d ∈ reading.decimals, d.Carried) ∧
    reading.Lossless := by
  have wellFormed : reading.WellFormed :=
    ⟨by decide, trivial, ⟨trivial, trivial, trivial⟩, trivial⟩
  have carried : ∀ d ∈ reading.decimals, d.Carried := by decide +kernel
  exact ⟨wellFormed, carried, (lossless_of_carried wellFormed).2 carried⟩

/-- The greatest decimal. -/
def greatest : Decimal :=
  .ofInt 0xFFFFFFFFFFFFFFFFFFFFFFFF (by decide)

/-- The greatest decimal is rounded up to a double that is no decimal, so what
is written cannot be read. -/
theorem not_lossless_greatest :
    Value.ofJson (Value.decimal greatest).toJson =
      .error (.numberOutOfRange "7.922816251426434e+28") ∧
      ¬ ∀ v : Value, v.WellFormed → v.Lossless := by
  have written : Json.Number.ofText? greatest.normalize.text =
      some (.double ⟨false, 0x10000000000000, 44⟩) := by
    decide +kernel
  have refused :
      Decimal.ofText? (⟨false, 0x10000000000000, 44⟩ : Binary64).text = none := by
    decide +kernel
  have shown : String.ofList (⟨false, 0x10000000000000, 44⟩ : Binary64).text =
      "7.922816251426434e+28" := by
    decide +kernel
  have number : Decimal.ofJsonNumber (.double ⟨false, 0x10000000000000, 44⟩) =
      .error (.numberOutOfRange "7.922816251426434e+28") := by
    unfold Decimal.ofJsonNumber
    dsimp only
    rw [refused, shown]
  have failed : Value.ofJson (Value.decimal greatest).toJson =
      .error (.numberOutOfRange "7.922816251426434e+28") := by
    show Value.ofJson (Value.decimalToJson greatest) = _
    unfold Value.decimalToJson
    rw [written]
    show (Decimal.ofJsonNumber (.double ⟨false, 0x10000000000000, 44⟩)).map
      Value.decimal = _
    rw [number]
    rfl
  refine ⟨failed, fun lossless => ?_⟩
  obtain ⟨w, f, reads, _⟩ := lossless (.decimal greatest) trivial
  cases failed.symm.trans reads

end FieldExpr
