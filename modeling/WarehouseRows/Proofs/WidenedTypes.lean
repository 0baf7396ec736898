import WarehouseRows.Schema.Equality
import WarehouseRows.Proofs.NormalForm
import WarehouseRows.Proofs.Typing

/-!
# Schemas that come back from their columns

Columns know fewer types than schemas do: integers and floats of one width each, no maps, no
enumerations, and arrays only as repeated columns, which are never nullable. A schema that asks
for nothing else comes back from its columns as the same schema, with the names, the order, the
nullability and the descriptions of its fields at every depth.

## Main definitions

* `FieldType.IsWidened`: the types, at a place that is nullable or not, that columns know.
-/

namespace WarehouseRows

/-- Whether a kind has a keyword of its own, rather than that of a wider kind. -/
def PrimitiveKind.isWidened : PrimitiveKind → Bool
  | .int64 | .float64 | .decimal | .boolean | .string | .bytes | .datetime => true
  | .byte | .int16 | .int32 | .float32 => false

/-- The keyword of a column and what is nested in it decide on its type, its mode aside. -/
theorem Column.baseType_congr (options : SchemaOptions) (c : Column) (name : String)
    (mode : Option Mode) (description : Option String) :
    baseType options { c with name := name, mode := mode, description := description } =
      baseType options c := by
  obtain ⟨_, keyword, _, fields, _⟩ := c
  match fields with
  | none => rfl
  | some [] => rfl
  | some [_] => rfl
  | some [_, _] => rfl
  | some (_ :: _ :: _ :: _) => rfl

namespace FieldType

mutual

/-- Whether columns tell a type from all others at a place. An array may stand only where
nothing is nullable, and holds no arrays; the names in every row are distinct. -/
def IsWidened (nullable : Bool) (type : FieldType) : Prop :=
  match type with
  | .primitive kind => kind.isWidened = true
  | .array element elementNullable =>
    nullable = false ∧ elementNullable = false ∧ element.isCollection = false ∧
      IsWidened false element
  | .row fields => Schema.create fields = .ok fields ∧ AllWidened fields
  | .logical identifier base representation labels =>
    FieldType.logical identifier base representation labels = .date ∨
      FieldType.logical identifier base representation labels = .time ∨
      FieldType.logical identifier base representation labels = .datetime
  | .map .. | .unknown _ => False

/-- Whether the type of each field is such a type at the place of the field. -/
def AllWidened (fields : List Field) : Prop :=
  match fields with
  | [] => True
  | f :: rest => IsWidened f.nullable f.type ∧ AllWidened rest

end

/-! ## Places -/

/-- Whether a place of a type has a column, whatever its name and description, whose own type
is the same at that place. -/
def ComesBack (nullable : Bool) (type : FieldType) : Prop :=
  ∃ c : Column,
    (∀ name description, toColumn name nullable description type =
      .ok { c with name := name, description := description }) ∧
    c.isNullable = nullable ∧
    ∃ base, Column.baseType { } c = .ok base ∧ same (Column.withMode c.mode base) type = true

/-- A type without columns inside comes back if its keyword stands for it. -/
theorem comesBack_atomic {type : FieldType} {k : String} (hatomic : type.isAtomic = true)
    (hkeyword : type.keyword = .ok k) (hscalar : Column.scalarType (some k) = .ok type)
    (hstruct : Column.isStruct (some k) = false) (hsame : same type type = true)
    (nullable : Bool) : ComesBack nullable type := by
  have hmode : Column.withMode (Field.mode nullable) type = type := by
    cases nullable <;> rfl
  refine ⟨⟨"", some k, Field.mode nullable, none, none⟩, fun name description => ?_, ?_,
    type, ?_, ?_⟩
  · rw [toColumn_atomic hatomic, Field.plainColumn, hkeyword]
  · cases nullable <;> rfl
  · rw [Column.baseType, if_neg (by simp [hstruct]), hscalar]
  · rw [hmode]
    exact hsame

theorem comesBack_primitive {kind : PrimitiveKind} (h : kind.isWidened = true) (nullable : Bool) :
    ComesBack nullable (.primitive kind) := by
  cases kind with
  | byte | int16 | int32 | float32 => exact absurd h (by decide)
  | int64 | float64 | decimal | boolean | string | bytes | datetime =>
    exact comesBack_atomic rfl rfl rfl rfl rfl nullable

/-- The column of an array is the repeated column of its element. -/
theorem comesBack_array {element : FieldType} (hflat : element.isCollection = false)
    (helement : ComesBack false element) : ComesBack false (.array element false) := by
  obtain ⟨c, hcolumn, hnullable, base, hbase, hsame⟩ := helement
  obtain ⟨hbaseflat, _⟩ := Column.toColumn_of_baseType hbase
  have hmap := isMap_of_isCollection hbaseflat
  -- a repeated column would have come back as an array, and the element is none
  have hbasesame : same base element = true := by
    rw [Column.withMode] at hsame
    split at hsame
    · cases element with
      | array => exact absurd hflat (by simp [isCollection])
      | _ => exact absurd hsame (by simp [same])
    · exact hsame
  refine ⟨{ c with mode := some .repeated }, fun name description => ?_, rfl, base, ?_, ?_⟩
  · rw [toColumn_array hflat, hcolumn]
    rfl
  · exact (Column.baseType_congr { } c c.name (some .repeated) c.description).trans hbase
  · rw [Column.withMode, if_pos ⟨rfl, by simp [hmap]⟩, same, hbasesame]
    rfl

/-! ## Rows -/

theorem getD_present? (text : Option String) :
    (ConversionError.present? text).getD "" = text.getD "" := by
  cases text with
  | none => rfl
  | some t =>
    by_cases h : t.isEmpty = true
    · have ht : t = "" := String.isEmpty_iff.mp h
      subst ht
      rfl
    · simp [ConversionError.present?, Option.filter, h]

/-- Fields at whose places types come back come back themselves. -/
theorem exists_toColumns {fields : List Field} (h : ∀ f ∈ fields, ComesBack f.nullable f.type) :
    ∃ columns back, toColumns fields = .ok columns ∧ Column.toFields { } columns = .ok back ∧
      back.map Named.name = fields.map Named.name ∧ sameFields back fields = true := by
  induction fields with
  | nil => exact ⟨[], [], rfl, rfl, rfl, rfl⟩
  | cons f fields ih =>
    obtain ⟨columns, back, hcolumns, hback, hnames, hsame⟩ :=
      ih fun f hf => h f (List.mem_cons_of_mem _ hf)
    obtain ⟨c, hcolumn, hnullable, base, hbase, hsameType⟩ := h f List.mem_cons_self
    let description := ConversionError.present? f.description
    have hbasec := (Column.baseType_congr { } c f.name c.mode description).trans hbase
    refine ⟨{ c with name := f.name, description := description } :: columns,
      ⟨f.name, Column.withMode c.mode base, f.nullable, ConversionError.present? description⟩ ::
        back, ?_, ?_, ?_, ?_⟩
    · rw [toColumns, hcolumn, hcolumns]
      rfl
    · rw [Column.toFields, hbasec, hback, ← hnullable]
      rfl
    · rw [List.map_cons, List.map_cons, hnames]
    · have hdescription : (ConversionError.present? description).getD "" =
          f.description.getD "" := (getD_present? _).trans (getD_present? _)
      simp only [sameFields, hdescription, hsame, hsameType, beq_self_eq_true, Bool.and_self]

theorem comesBack_row {fields : List Field} (hcreate : Schema.create fields = .ok fields)
    (hfields : ∀ f ∈ fields, ComesBack f.nullable f.type) (nullable : Bool) :
    ComesBack nullable (.row fields) := by
  obtain ⟨columns, back, hcolumns, hback, hnames, hsame⟩ := exists_toColumns hfields
  have hdistinct : Schema.create back = .ok back :=
    Schema.create_eq_ok.mpr ⟨rfl, hnames ▸ (Schema.create_eq_ok.mp hcreate).2⟩
  refine ⟨⟨"", some "STRUCT", Field.mode nullable, some columns, none⟩,
    fun name description => ?_, ?_, .row back, ?_, ?_⟩
  · rw [toColumn, hcolumns]
    rfl
  · cases nullable <;> rfl
  · rw [Column.baseType_nested, if_pos (by decide), hback, Outcome.ok_bind, hdistinct]
    rfl
  · cases nullable <;> exact hsame

theorem allWidened_iff {fields : List Field} :
    AllWidened fields ↔ ∀ f ∈ fields, IsWidened f.nullable f.type := by
  induction fields with
  | nil => simp [AllWidened]
  | cons f fields ih => simp [AllWidened, ih]

/-- The types that columns know come back at their places. -/
theorem comesBack_of_isWidened {type : FieldType} {nullable : Bool}
    (h : type.IsWidened nullable) : ComesBack nullable type := by
  induction type generalizing nullable with
  | primitive kind => exact comesBack_primitive h nullable
  | array element elementNullable ih =>
    obtain ⟨rfl, rfl, hflat, helement⟩ := h
    exact comesBack_array hflat (ih helement)
  | map key value valueNullable => exact absurd h id
  | row fields ih =>
    obtain ⟨hcreate, hfields⟩ := h
    exact comesBack_row hcreate (fun f hf => ih f hf (allWidened_iff.mp hfields f hf)) nullable
  | logical identifier base representation labels =>
    rcases h with h | h | h
    · rw [h]
      exact comesBack_atomic rfl rfl rfl rfl rfl nullable
    · rw [h]
      exact comesBack_atomic rfl rfl rfl rfl rfl nullable
    · rw [h]
      exact comesBack_atomic rfl rfl rfl rfl rfl nullable
  | unknown kind => exact absurd h id

end FieldType

/-! ## Schemas -/

/-- A schema of types that columns know has columns, and the schema of these columns is the
same. -/
theorem Schema.same_toSchema_toTable {schema : Schema}
    (h : (FieldType.row schema).IsWidened false) :
    ∃ columns back, schema.toTable = .ok columns ∧
      columns.toSchema { inferMaps := false } = .ok back ∧ back.same schema = true := by
  obtain ⟨hcreate, hfields⟩ := h
  obtain ⟨columns, back, hcolumns, hback, hnames, hsame⟩ := FieldType.exists_toColumns
    fun f hf => FieldType.comesBack_of_isWidened (FieldType.allWidened_iff.mp hfields f hf)
  have hdistinct : Schema.create back = .ok back :=
    Schema.create_eq_ok.mpr ⟨rfl, hnames ▸ (Schema.create_eq_ok.mp hcreate).2⟩
  refine ⟨columns, back, hcolumns, ?_, hsame⟩
  rw [TableSchema.toSchema, hback]
  exact hdistinct

/-- A repeated row with a missing date and a number in it, and a text that is described. -/
theorem Schema.same_toSchema_toTable_visits :
    ∃ columns back,
      Schema.toTable [⟨"visits", .array (.row [⟨"day", .date, true, none⟩,
          ⟨"pages", .primitive .int64, false, some ""⟩]) false, false, none⟩,
        ⟨"note", .primitive .string, true, some "free text"⟩] = .ok columns ∧
      columns.toSchema { inferMaps := false } = .ok back ∧
      back.same [⟨"visits", .array (.row [⟨"day", .date, true, none⟩,
          ⟨"pages", .primitive .int64, false, some ""⟩]) false, false, none⟩,
        ⟨"note", .primitive .string, true, some "free text"⟩] = true := by
  refine same_toSchema_toTable ⟨rfl, ?_⟩
  exact ⟨⟨rfl, rfl, rfl, rfl, Or.inl rfl, rfl, trivial⟩, rfl, trivial⟩

end WarehouseRows
