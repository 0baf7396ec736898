import WarehouseRows.Proofs.WidenedTypes

/-!
# Maps that come back from their columns

A map is stored as a repeated struct of a key and a value, and comes back as a map when the
options say that such structs are maps. What the key and the value are is told by the keywords of
their columns and by the columns nested in them, at every depth; the modes of the two columns are
not looked at. So scalars, rows and further maps come back inside a map as they were, and an array
comes back as one of its elements.

## Main definitions

* `FieldType.IsInferable`: the types, at a place that is nullable or not, that columns know when
  maps are inferred.
* `FieldType.inferred`: the type that comes back.
* `FieldType.KeepsEntries`: the types that come back as they were.
-/

namespace WarehouseRows

/-- The option under which structs of a key and a value are maps. -/
def SchemaOptions.inferring : SchemaOptions := { inferMaps := true }

open SchemaOptions (inferring)

/-- A struct of a key and a value is a map of the types of these two columns. -/
theorem Column.baseType_entry {key value : Column} (name : String) (mode : Option Mode)
    (description : Option String) (hkey : key.name = MapEntry.keyName)
    (hvalue : value.name = MapEntry.valueName) :
    baseType inferring ⟨name, some "STRUCT", mode, some [key, value], description⟩ = (do
      let keyType ← baseType inferring key
      let valueType ← baseType inferring value
      pure (.map keyType valueType false)) := by
  rw [baseType, if_pos (by decide), if_pos ⟨rfl, hkey, hvalue⟩]

namespace FieldType

/-! ## The types in question -/

mutual

/-- Whether columns tell a type from all others at a place, maps among them. An array or a map may
stand only where nothing is nullable, an array holds neither arrays nor maps, and no row looks like
an entry of a map. -/
def IsInferable (nullable : Bool) (type : FieldType) : Prop :=
  match type with
  | .primitive kind => kind.isWidened = true
  | .array element elementNullable =>
    nullable = false ∧ elementNullable = false ∧ element.isCollection = false ∧
      IsInferable false element
  | .map key value valueNullable =>
    nullable = false ∧ valueNullable = false ∧ IsInferable false key ∧ IsInferable false value
  | .row fields =>
    Schema.create fields = .ok fields ∧
      fields.map Named.name ≠ [MapEntry.keyName, MapEntry.valueName] ∧ AllInferable fields
  | .logical identifier base representation labels =>
    FieldType.logical identifier base representation labels = .date ∨
      FieldType.logical identifier base representation labels = .time ∨
      FieldType.logical identifier base representation labels = .datetime
  | .unknown _ => False

/-- Whether the type of each field is such a type at the place of the field. -/
def AllInferable (fields : List Field) : Prop :=
  match fields with
  | [] => True
  | f :: rest => IsInferable f.nullable f.type ∧ AllInferable rest

end

mutual

/-- The type with the elements of arrays in place of the arrays, wherever these are keys or values
of maps. -/
def inferred : FieldType → FieldType
  | .array element elementNullable => .array (inferred element) elementNullable
  | .map key value valueNullable => .map (inferred key).item (inferred value).item valueNullable
  | .row fields => .row (inferredFields fields)
  | type => type

/-- The fields with such types in place of theirs, and without descriptions that are empty. -/
def inferredFields : List Field → List Field
  | [] => []
  | f :: rest =>
    ⟨f.name, inferred f.type, f.nullable, ConversionError.present? f.description⟩ ::
      inferredFields rest

end

mutual

/-- Whether no key and no value of a map in a type is an array. -/
def KeepsEntries (type : FieldType) : Prop :=
  match type with
  | .array element _ => KeepsEntries element
  | .map key value _ =>
    (key.isArray = false ∧ KeepsEntries key) ∧ (value.isArray = false ∧ KeepsEntries value)
  | .row fields => AllKeepEntries fields
  | .primitive _ | .logical .. | .unknown _ => True

/-- Whether no key and no value of a map in a field is an array. -/
def AllKeepEntries (fields : List Field) : Prop :=
  match fields with
  | [] => True
  | f :: rest => KeepsEntries f.type ∧ AllKeepEntries rest

end

theorem allInferable_iff {fields : List Field} :
    AllInferable fields ↔ ∀ f ∈ fields, IsInferable f.nullable f.type := by
  induction fields with
  | nil => simp [AllInferable]
  | cons f fields ih => simp [AllInferable, ih]

theorem inferred_of_isAtomic {type : FieldType} (h : type.isAtomic = true) :
    type.inferred = type := by
  cases type with
  | primitive | logical | unknown => rfl
  | array | map | row => exact absurd h (by simp [isAtomic])

@[simp] theorem isArray_inferred (type : FieldType) : type.inferred.isArray = type.isArray := by
  cases type <;> rfl

@[simp] theorem isMap_inferred (type : FieldType) : type.inferred.isMap = type.isMap := by
  cases type <;> rfl

theorem item_of_isArray {type : FieldType} (h : type.isArray = false) : type.item = type := by
  cases type with
  | array => exact absurd h (by simp [isArray])
  | _ => rfl

theorem isArray_of_isCollection {type : FieldType} (h : type.isCollection = false) :
    type.isArray = false := by
  cases type with
  | array => exact absurd h (by simp [isCollection])
  | _ => rfl

theorem names_inferredFields (fields : List Field) :
    (inferredFields fields).map Named.name = fields.map Named.name := by
  induction fields with
  | nil => rfl
  | cons f fields ih => rw [inferredFields, List.map_cons, List.map_cons, ih]

/-! ## Places -/

/-- Whether a place of a type has a column, whatever its name and description, that holds what
the items of another type are, and with its mode stands for that other type. -/
def ComesBackAs (nullable : Bool) (type back : FieldType) : Prop :=
  ∃ c : Column,
    (∀ name description, toColumn name nullable description type =
      .ok { c with name := name, description := description }) ∧
    c.isNullable = nullable ∧
    Column.baseType inferring c = .ok back.item ∧ Column.withMode c.mode back.item = back

/-- A type without columns inside comes back if its keyword stands for it. -/
theorem comesBackAs_atomic {type : FieldType} {k : String} (hatomic : type.isAtomic = true)
    (hkeyword : type.keyword = .ok k) (hscalar : Column.scalarType (some k) = .ok type)
    (hstruct : Column.isStruct (some k) = false) (nullable : Bool) :
    ComesBackAs nullable type type := by
  have hitem : type.item = type :=
    item_of_isArray (isArray_of_isCollection (isCollection_of_isAtomic hatomic))
  refine ⟨⟨"", some k, Field.mode nullable, none, none⟩, fun name description => ?_, ?_, ?_, ?_⟩
  · rw [toColumn_atomic hatomic, Field.plainColumn, hkeyword]
  · cases nullable <;> rfl
  · rw [Column.baseType, if_neg (by simp [hstruct]), hscalar, hitem]
  · rw [hitem]
    cases nullable <;> rfl

theorem comesBackAs_primitive {kind : PrimitiveKind} (h : kind.isWidened = true)
    (nullable : Bool) : ComesBackAs nullable (.primitive kind) (.primitive kind) := by
  cases kind with
  | byte | int16 | int32 | float32 => exact absurd h (by decide)
  | int64 | float64 | decimal | boolean | string | bytes | datetime =>
    exact comesBackAs_atomic rfl rfl rfl rfl nullable

/-- The column of an array is the repeated column of its element. -/
theorem comesBackAs_array {element : FieldType} (hflat : element.isCollection = false)
    (helement : ComesBackAs false element element.inferred) :
    ComesBackAs false (.array element false) (.array element.inferred false) := by
  obtain ⟨c, hcolumn, _, hbase, _⟩ := helement
  have hitem : element.inferred.item = element.inferred :=
    item_of_isArray (by rw [isArray_inferred, isArray_of_isCollection hflat])
  have hmap : element.inferred.isMap = false := by
    rw [isMap_inferred, isMap_of_isCollection hflat]
  refine ⟨{ c with mode := some .repeated }, fun name description => ?_, rfl, ?_, ?_⟩
  · rw [toColumn_array hflat, hcolumn]
    rfl
  · rw [item, ← hitem]
    exact (Column.baseType_congr inferring c c.name (some .repeated) c.description).trans hbase
  · rw [Column.withMode, if_pos ⟨rfl, by simp [item, hmap]⟩]
    rfl

/-- The column of a map is a struct of the columns of key and value, and these two are known by
their names. -/
theorem comesBackAs_map {key value keyBack valueBack : FieldType}
    (hkey : ComesBackAs false key keyBack) (hvalue : ComesBackAs false value valueBack) :
    ComesBackAs false (.map key value false) (.map keyBack.item valueBack.item false) := by
  obtain ⟨keyColumn, hkeyColumn, _, hkeyBase, _⟩ := hkey
  obtain ⟨valueColumn, hvalueColumn, _, hvalueBase, _⟩ := hvalue
  let keyPart : Column := { keyColumn with name := MapEntry.keyName, description := none }
  let valuePart : Column := { valueColumn with name := MapEntry.valueName, description := none }
  have hkeyPart : Column.baseType inferring keyPart = .ok keyBack.item :=
    (Column.baseType_congr inferring keyColumn _ keyColumn.mode none).trans hkeyBase
  have hvaluePart : Column.baseType inferring valuePart = .ok valueBack.item :=
    (Column.baseType_congr inferring valueColumn _ valueColumn.mode none).trans hvalueBase
  refine ⟨⟨"", some "STRUCT", some .repeated, some [keyPart, valuePart], none⟩,
    fun name description => ?_, rfl, ?_, rfl⟩
  · rw [toColumn, hkeyColumn, Outcome.ok_bind, hvalueColumn]
    rfl
  · rw [Column.baseType_entry _ _ _ rfl rfl, hkeyPart, Outcome.ok_bind, hvaluePart]
    rfl

/-! ## Rows -/

/-- Fields at whose places types come back with what is inferred come back so themselves. -/
theorem exists_columns_inferring {fields : List Field}
    (h : ∀ f ∈ fields, ComesBackAs f.nullable f.type f.type.inferred) :
    ∃ columns, toColumns fields = .ok columns ∧
      columns.map Column.name = fields.map Named.name ∧
      Column.toFields inferring columns = .ok (inferredFields fields) := by
  induction fields with
  | nil => exact ⟨[], rfl, rfl, rfl⟩
  | cons f fields ih =>
    obtain ⟨columns, hcolumns, hnames, hback⟩ := ih fun f hf => h f (List.mem_cons_of_mem _ hf)
    obtain ⟨c, hcolumn, hnullable, hbase, hmode⟩ := h f List.mem_cons_self
    let description := ConversionError.present? f.description
    have hbasec := (Column.baseType_congr inferring c f.name c.mode description).trans hbase
    refine ⟨{ c with name := f.name, description := description } :: columns, ?_, ?_, ?_⟩
    · rw [toColumns, hcolumn, hcolumns]
      rfl
    · rw [List.map_cons, List.map_cons, hnames]
    · have hfield : (⟨f.name, Column.withMode c.mode f.type.inferred.item, c.isNullable,
          ConversionError.present? description⟩ : Field) =
            ⟨f.name, f.type.inferred, f.nullable, description⟩ := by
        rw [hmode, hnullable, ConversionError.present?_present?]
      rw [Column.toFields, hbasec, hback, inferredFields, ← hfield]
      rfl

theorem comesBackAs_row {fields : List Field} (hcreate : Schema.create fields = .ok fields)
    (hentry : fields.map Named.name ≠ [MapEntry.keyName, MapEntry.valueName])
    (hfields : ∀ f ∈ fields, ComesBackAs f.nullable f.type f.type.inferred) (nullable : Bool) :
    ComesBackAs nullable (.row fields) (.row (inferredFields fields)) := by
  obtain ⟨columns, hcolumns, hnames, hback⟩ := exists_columns_inferring hfields
  have hdistinct : Schema.create (inferredFields fields) = .ok (inferredFields fields) :=
    Schema.create_eq_ok.mpr
      ⟨rfl, names_inferredFields fields ▸ (Schema.create_eq_ok.mp hcreate).2⟩
  refine ⟨⟨"", some "STRUCT", Field.mode nullable, some columns, none⟩,
    fun name description => ?_, ?_, ?_, ?_⟩
  · rw [toColumn, hcolumns]
    rfl
  · cases nullable <;> rfl
  · rw [Column.baseType_of_names_ne _ _ _ (by decide) (hnames ▸ hentry), hback, Outcome.ok_bind,
      hdistinct]
    rfl
  · cases nullable <;> rfl

/-- The types that columns know when maps are inferred come back with what is inferred. -/
theorem comesBackAs_of_isInferable {type : FieldType} {nullable : Bool}
    (h : type.IsInferable nullable) : ComesBackAs nullable type type.inferred := by
  induction type generalizing nullable with
  | primitive kind => exact comesBackAs_primitive h nullable
  | array element elementNullable ih =>
    obtain ⟨rfl, rfl, hflat, helement⟩ := h
    exact comesBackAs_array hflat (ih helement)
  | map key value valueNullable ihKey ihValue =>
    obtain ⟨rfl, rfl, hkey, hvalue⟩ := h
    exact comesBackAs_map (ihKey hkey) (ihValue hvalue)
  | row fields ih =>
    obtain ⟨hcreate, hentry, hfields⟩ := h
    exact comesBackAs_row hcreate hentry
      (fun f hf => ih f hf (allInferable_iff.mp hfields f hf)) nullable
  | logical identifier base representation labels =>
    rw [inferred_of_isAtomic rfl]
    rcases h with h | h | h
    · rw [h]
      exact comesBackAs_atomic rfl rfl rfl rfl nullable
    · rw [h]
      exact comesBackAs_atomic rfl rfl rfl rfl nullable
    · rw [h]
      exact comesBackAs_atomic rfl rfl rfl rfl nullable
  | unknown kind => exact absurd h id

/-! ## What stays the same -/

/-- Inside a map, an array is not the same as its elements. -/
theorem same_item_inferred {type : FieldType} {nullable : Bool} (h : type.IsInferable nullable)
    (htype : same type.inferred type = true ↔ type.KeepsEntries) :
    same type.inferred.item type = true ↔ type.isArray = false ∧ type.KeepsEntries := by
  cases type with
  | array element elementNullable =>
    obtain ⟨_, _, hflat, _⟩ := h
    have hdiffers : same element.inferred (.array element elementNullable) = false := by
      cases element with
      | array | map => exact absurd hflat (by simp [isCollection])
      | primitive | row | logical | unknown => rfl
    simp only [inferred, item, hdiffers, isArray, Bool.false_eq_true, Bool.true_eq_false, false_and]
  | primitive | map | row | logical | unknown => simpa [inferred, item, isArray] using htype

theorem sameFields_inferredFields {fields : List Field}
    (h : ∀ f ∈ fields, same f.type.inferred f.type = true ↔ f.type.KeepsEntries) :
    sameFields (inferredFields fields) fields = true ↔ AllKeepEntries fields := by
  induction fields with
  | nil => exact ⟨fun _ => trivial, fun _ => rfl⟩
  | cons f fields ih =>
    have hfirst := h f List.mem_cons_self
    have hrest := ih fun f hf => h f (List.mem_cons_of_mem _ hf)
    simp only [inferredFields, sameFields, getD_present?, beq_self_eq_true, Bool.true_and,
      Bool.and_eq_true, hfirst, hrest, AllKeepEntries]

/-- What comes back is the same type exactly if no array is a key or a value of a map. -/
theorem same_inferred_iff {type : FieldType} {nullable : Bool} (h : type.IsInferable nullable) :
    same type.inferred type = true ↔ type.KeepsEntries := by
  induction type generalizing nullable with
  | primitive kind => simp [inferred, same, KeepsEntries]
  | array element elementNullable ih =>
    obtain ⟨_, _, _, helement⟩ := h
    simp only [inferred, same, KeepsEntries, beq_self_eq_true, Bool.true_and, ih helement]
  | map key value valueNullable ihKey ihValue =>
    obtain ⟨_, _, hkey, hvalue⟩ := h
    simp only [inferred, same, KeepsEntries, beq_self_eq_true, Bool.true_and, Bool.and_eq_true,
      same_item_inferred hkey (ihKey hkey), same_item_inferred hvalue (ihValue hvalue)]
  | row fields ih =>
    obtain ⟨_, _, hfields⟩ := h
    simp only [inferred, same, KeepsEntries]
    exact sameFields_inferredFields fun f hf => ih f hf (allInferable_iff.mp hfields f hf)
  | logical identifier base representation labels =>
    rw [inferred_of_isAtomic rfl]
    rcases h with h | h | h <;> rw [h] <;> exact ⟨fun _ => trivial, fun _ => rfl⟩
  | unknown kind => exact absurd h id

end FieldType

/-! ## Schemas -/

/-- A schema of types that columns know when maps are inferred comes back from its columns with
the elements of arrays in place of arrays inside maps; it is the same schema exactly if there are
no such arrays. -/
theorem Schema.toSchema_toTable_inferring {schema : Schema}
    (hcreate : Schema.create schema = .ok schema) (h : FieldType.AllInferable schema) :
    ∃ columns, schema.toTable = .ok columns ∧
      columns.toSchema { inferMaps := true } = .ok (FieldType.inferredFields schema) ∧
      (Schema.same (FieldType.inferredFields schema) schema = true ↔
        FieldType.AllKeepEntries schema) := by
  have hfields := FieldType.allInferable_iff.mp h
  obtain ⟨columns, hcolumns, _, hback⟩ := FieldType.exists_columns_inferring
    fun f hf => FieldType.comesBackAs_of_isInferable (hfields f hf)
  have hdistinct : Schema.create (FieldType.inferredFields schema) =
      .ok (FieldType.inferredFields schema) :=
    Schema.create_eq_ok.mpr
      ⟨rfl, FieldType.names_inferredFields schema ▸ (Schema.create_eq_ok.mp hcreate).2⟩
  refine ⟨columns, hcolumns, ?_, ?_⟩
  · exact (congrArg (· >>= Schema.create) hback).trans hdistinct
  · exact FieldType.sameFields_inferredFields
      fun f hf => FieldType.same_inferred_iff (hfields f hf)

/-- A map to maps of rows, with a list in the rows. -/
theorem Schema.toSchema_toTable_inferring_places :
    ∃ columns back,
      Schema.toTable [⟨"places", .map (.primitive .string) (.map .date
        (.row [⟨"name", .primitive .string, true, none⟩,
          ⟨"marks", .array (.primitive .float64) false, false, some "in order"⟩]) false) false,
        false, none⟩] = .ok columns ∧
      columns.toSchema { inferMaps := true } = .ok back ∧
      back.same [⟨"places", .map (.primitive .string) (.map .date
        (.row [⟨"name", .primitive .string, true, none⟩,
          ⟨"marks", .array (.primitive .float64) false, false, some "in order"⟩]) false) false,
        false, none⟩] = true := by
  have hinferable : FieldType.AllInferable [⟨"places", .map (.primitive .string) (.map .date
      (.row [⟨"name", .primitive .string, true, none⟩,
        ⟨"marks", .array (.primitive .float64) false, false, some "in order"⟩]) false) false,
      false, none⟩] := by
    refine ⟨⟨rfl, rfl, rfl, rfl, rfl, Or.inl rfl, rfl, ?_, rfl, ?_, trivial⟩, trivial⟩
    · simp [MapEntry.keyName, MapEntry.valueName]
    · exact ⟨rfl, rfl, rfl, rfl⟩
  obtain ⟨columns, hcolumns, hback, hsame⟩ :=
    Schema.toSchema_toTable_inferring rfl hinferable
  refine ⟨columns, _, hcolumns, hback, hsame.mpr ?_⟩
  exact ⟨⟨⟨rfl, trivial⟩, rfl, ⟨rfl, trivial⟩, rfl, trivial, trivial, trivial⟩, trivial⟩

/-- A map to lists of numbers comes back as a map to numbers. -/
theorem Schema.toSchema_toTable_repeatedValue :
    ∃ columns,
      Schema.toTable [⟨"sizes", .map (.primitive .string) (.array (.primitive .int64) false) false,
        false, none⟩] = .ok columns ∧
      columns.toSchema { inferMaps := true } =
        .ok [⟨"sizes", .map (.primitive .string) (.primitive .int64) false, false, none⟩] ∧
      Schema.same [⟨"sizes", .map (.primitive .string) (.primitive .int64) false, false, none⟩]
        [⟨"sizes", .map (.primitive .string) (.array (.primitive .int64) false) false,
          false, none⟩] = false :=
  ⟨_, rfl, rfl, rfl⟩

end WarehouseRows
