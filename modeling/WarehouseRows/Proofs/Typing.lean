import WarehouseRows.Row.Scalar
import WarehouseRows.Proofs.CalendarRange
import WarehouseRows.Proofs.Entries

/-!
# Values of a type

A type says which values may stand at a place: a nullable place also takes `null`, an array
asks the same of every item and a row of every field. What counts as a scalar of a type is
left open, so that one shape serves the values that readers give and the values that
writers insist on.

## Main definitions

* `FieldType.Inhabits`, `FieldType.Admits`: the values of a type, and those of a place.
* `FieldType.RowInhabits`: the rows of the fields of a schema.
* `FieldType.IsScalar`: the scalars that readers give.
-/

namespace WarehouseRows

namespace FieldType

/-- What passes from the parts of every type to the type holds for all types. -/
@[induction_eliminator]
theorem induction {motive : FieldType → Prop}
    (primitive : ∀ kind, motive (.primitive kind))
    (array : ∀ element elementNullable, motive element → motive (.array element elementNullable))
    (map : ∀ key value valueNullable, motive key → motive value →
      motive (.map key value valueNullable))
    (row : ∀ fields : List Field, (∀ f ∈ fields, motive f.type) → motive (.row fields))
    (logical : ∀ identifier base representation labels, motive base →
      motive (.logical identifier base representation labels))
    (unknown : ∀ kind, motive (.unknown kind)) (type : FieldType) : motive type :=
  @FieldType.rec motive (fun fields => ∀ f ∈ fields, motive f.type) (fun f => motive f.type)
    primitive array map row logical unknown
    (fun _ hf => absurd hf List.not_mem_nil)
    (fun _ _ hfirst hrest f hf => by
      rcases List.mem_cons.mp hf with rfl | hf
      · exact hfirst
      · exact hrest f hf)
    (fun _ _ _ _ htype => htype) type

end FieldType

/-! ## The shape of values -/

/-- Whether a value has a property, or is `null` where it may be. -/
def Value.OrNull (nullable : Bool) (P : Value → Prop) (value : Value) : Prop :=
  (nullable = true ∧ value = .null) ∨ P value

namespace FieldType

mutual

/-- Whether a value is one of a type, where `scalar` tells for the types without parts. -/
def Inhabits (scalar : FieldType → Value → Prop) (type : FieldType) (value : Value) : Prop :=
  match type with
  | .primitive kind => scalar (.primitive kind) value
  | .array element elementNullable =>
    ∃ items, value = .list items ∧
      ∀ item ∈ items, Value.OrNull elementNullable (Inhabits scalar element) item
  | .map keyType valueType valueNullable =>
    ∃ entries, value = .map entries ∧ Value.KeysApart entries ∧
      ∀ e ∈ entries, Inhabits scalar keyType e.1 ∧
        Value.OrNull valueNullable (Inhabits scalar valueType) e.2
  | .row fields => ∃ items, value = .list items ∧ RowInhabits scalar fields items
  | .logical identifier base representation labels =>
    if representation = .passThrough then Inhabits scalar base value
    else scalar (.logical identifier base representation labels) value
  | .unknown _ => False

/-- Whether a row has exactly one value of its type for every field, in order. -/
def RowInhabits (scalar : FieldType → Value → Prop) (fields : List Field) (row : Row) : Prop :=
  match fields, row with
  | [], [] => True
  | f :: fields, value :: row =>
    Value.OrNull f.nullable (Inhabits scalar f.type) value ∧ RowInhabits scalar fields row
  | _, _ => False

end

/-- A row has a value for every field, and each is one of the place of its field. -/
theorem rowInhabits_iff {scalar : FieldType → Value → Prop} {fields : List Field} {row : Row} :
    RowInhabits scalar fields row ↔ row.length = fields.length ∧
      ∀ p ∈ fields.zip row, Value.OrNull p.1.nullable (p.1.type.Inhabits scalar) p.2 := by
  induction fields generalizing row with
  | nil => cases row <;> simp [RowInhabits]
  | cons f fields ih =>
    cases row with
    | nil => simp [RowInhabits]
    | cons value row =>
      simp only [RowInhabits, ih, List.length_cons, Nat.add_right_cancel_iff, List.zip_cons_cons,
        List.forall_mem_cons]
      exact and_left_comm

/-- Whether a value may stand at a place of a type. -/
def Admits (scalar : FieldType → Value → Prop) (type : FieldType) (nullable : Bool)
    (value : Value) : Prop :=
  Value.OrNull nullable (Inhabits scalar type) value

/-- A value that is present is one of a place if it is one of the type. -/
theorem admits_iff_of_present {scalar : FieldType → Value → Prop} {type : FieldType}
    {nullable : Bool} {value : Value} (h : value.isAbsent = false) :
    type.Admits scalar nullable value ↔ type.Inhabits scalar value := by
  constructor
  · rintro (⟨_, rfl⟩ | hvalue)
    · exact absurd h (by simp [Value.isAbsent])
    · exact hvalue
  · exact Or.inr

theorem inhabits_list_iff {scalar : FieldType → Value → Prop} {element : FieldType}
    {elementNullable : Bool} {items : List Value} :
    (FieldType.array element elementNullable).Inhabits scalar (.list items) ↔
      ∀ item ∈ items, element.Admits scalar elementNullable item := by
  simp [Inhabits, Admits]

theorem inhabits_row_iff {scalar : FieldType → Value → Prop} {fields : List Field} {row : Row} :
    (FieldType.row fields).Inhabits scalar (.list row) ↔ RowInhabits scalar fields row := by
  simp [Inhabits]

theorem inhabits_map_iff {scalar : FieldType → Value → Prop} {keyType valueType : FieldType}
    {valueNullable : Bool} {entries : List (Value × Value)} (happart : Value.KeysApart entries) :
    (FieldType.map keyType valueType valueNullable).Inhabits scalar (.map entries) ↔
      ∀ e ∈ entries, keyType.Inhabits scalar e.1 ∧ valueType.Admits scalar valueNullable e.2 := by
  simp [Inhabits, Admits, happart]

end FieldType

/-- What holds of lists, of maps and of scalars holds of every value of a type. -/
theorem FieldType.of_inhabits {P : Value → Prop} {scalar : FieldType → Value → Prop}
    (hlist : ∀ items, P (.list items)) (hmap : ∀ entries, P (.map entries))
    (hscalar : ∀ type value, scalar type value → P value) {type : FieldType} {value : Value}
    (h : type.Inhabits scalar value) : P value := by
  induction type with
  | primitive kind => exact hscalar _ _ h
  | array element elementNullable _ =>
    obtain ⟨items, rfl, _⟩ := h
    exact hlist items
  | map key valueType valueNullable _ _ =>
    obtain ⟨entries, rfl, _⟩ := h
    exact hmap entries
  | row fields _ =>
    obtain ⟨items, rfl, _⟩ := h
    exact hlist items
  | logical identifier base representation labels ih =>
    rw [Inhabits] at h
    split at h
    · exact ih h
    · exact hscalar _ _ h
  | unknown kind => exact absurd h id

/-! ## Scalars -/

/-- Whether a value is an integer of a width, as a number. -/
def Value.IsBounded (bits : Nat) (value : Value) : Prop :=
  ∃ x n, value = .number x ∧ x.whole? = some n ∧ PrimitiveKind.fits bits n = true

/-- Whether a value is a scalar of a primitive kind. -/
def PrimitiveKind.IsScalar (kind : PrimitiveKind) (value : Value) : Prop :=
  match kind with
  | .byte => value.IsBounded 8
  | .int16 => value.IsBounded 16
  | .int32 => value.IsBounded 32
  | .int64 => ∃ n, value = .integer n ∧ PrimitiveKind.fits 64 n = true
  | .float32 => ∃ x : Double, value = .number x.toSingle
  | .float64 => ∃ x, value = .number x
  | .decimal => ∃ d, value = .decimal d
  | .boolean => ∃ b, value = .bool b
  | .string => ∃ s, value = .string s
  | .bytes => ∃ content, value = .bytes content
  | .datetime => ∃ t, value = .instant t

/-- Whether a value is a scalar of a logical type with a representation. -/
def Representation.IsScalar (representation : Representation) (labels : Option (List String))
    (value : Value) : Prop :=
  match representation with
  | .date => ∃ d, value = .date d
  | .time => ∃ t, value = .time t ∧ t.InDay
  | .datetime => ∃ x, value = .dateTime x ∧ x.InRange
  | .timeWithLocalTz => ∃ t, value = .instant t
  | .enumeration => ∃ i, value = .number (Double.ofNat i) ∧ i < (labels.getD []).length
  | .passThrough | .custom | .unknown _ => False

/-- Whether a value is a scalar of a type, as readers give it. -/
def FieldType.IsScalar : FieldType → Value → Prop
  | .primitive kind, value => kind.IsScalar value
  | .logical _ _ representation labels, value => representation.IsScalar labels value
  | _, _ => False

end WarehouseRows
