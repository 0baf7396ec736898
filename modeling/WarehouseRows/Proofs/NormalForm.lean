import WarehouseRows.Proofs.Columns

/-!
# The normal form of columns

The same table can be listed in several ways: with legacy keywords, with the nullable mode in
place of none, with descriptions that are empty, and with nested columns where the keyword is
not that of a struct. The schema of a table does not remember how it was listed. The columns of
that schema are therefore the normal form of the columns that were listed: the same names in
the same order, with one way to write everything else.

## Main definitions

* `Keyword.standard`: the keyword that stands for the same type in every listing.
* `Column.normal`, `TableSchema.normal`: columns in normal form.
-/

namespace WarehouseRows

namespace Keyword

/-- The legacy keywords and the standard ones for the same types. -/
def legacy : List (String × String) :=
  [("INTEGER", "INT64"), ("FLOAT", "FLOAT64"), ("BOOLEAN", "BOOL"), ("RECORD", "STRUCT")]

/-- The standard keyword for a legacy one; any other keyword as it is. -/
def standard (keyword : String) : String :=
  (legacy.lookup keyword).getD keyword

theorem standard_of_isStruct {keyword : Option String} (h : Column.isStruct keyword = true) :
    keyword.map standard = some "STRUCT" := by
  simp only [Column.isStruct, Bool.or_eq_true, beq_iff_eq] at h
  rcases h with rfl | rfl <;> decide

end Keyword

theorem ConversionError.present?_present? (text : Option String) :
    present? (present? text) = present? text := by
  simp [present?, Option.filter_filter]

namespace Column

/-- The mode of a column in normal form: none for a nullable column. A mode that is neither that
nor repeated makes a column required. -/
def normalMode : Option Mode → Option Mode
  | none | some .nullable => none
  | some .repeated => some .repeated
  | some _ => some .required

mutual

/-- The column in normal form. -/
def normal : Column → Column
  | ⟨name, keyword, mode, some columns, description⟩ =>
    ⟨name, keyword.map Keyword.standard, normalMode mode,
      if isStruct keyword then some (normals columns) else none,
      ConversionError.present? description⟩
  | ⟨name, keyword, mode, none, description⟩ =>
    ⟨name, keyword.map Keyword.standard, normalMode mode,
      if isStruct keyword then some [] else none, ConversionError.present? description⟩

/-- Columns in normal form, in the same order. -/
def normals : List Column → List Column
  | [] => []
  | c :: rest => normal c :: normals rest

end

@[simp] theorem name_normal (c : Column) : c.normal.name = c.name := by
  obtain ⟨name, keyword, mode, fields, description⟩ := c
  cases fields <;> rfl

theorem normal_eq (c : Column) :
    c.normal = ⟨c.name, c.normal.keyword, normalMode c.mode, c.normal.fields,
      ConversionError.present? c.description⟩ := by
  obtain ⟨name, keyword, mode, fields, description⟩ := c
  cases fields <;> rfl

end Column

/-- A table schema in normal form. -/
def TableSchema.normal (columns : TableSchema) : TableSchema :=
  Column.normals columns

/-! ## Columns of types -/

namespace FieldType

/-- Whether a type is stored without columns inside. -/
def isAtomic : FieldType → Bool
  | .primitive _ | .logical .. | .unknown _ => true
  | .array .. | .map .. | .row _ => false

theorem isCollection_of_isAtomic {type : FieldType} (h : type.isAtomic = true) :
    type.isCollection = false := by
  cases type with
  | primitive | logical | unknown => rfl
  | array | map | row => exact absurd h (by simp [isAtomic])

theorem isMap_of_isCollection {type : FieldType} (h : type.isCollection = false) :
    type.isMap = false := by
  cases type with
  | map => exact absurd h (by simp [isCollection])
  | _ => rfl

theorem toColumn_atomic {type : FieldType} (h : type.isAtomic = true) (name : String)
    (nullable : Bool) (description : Option String) :
    toColumn name nullable description type =
      Field.plainColumn name type (Field.mode nullable) description := by
  cases type with
  | primitive | logical | unknown => rfl
  | array | map | row => exact absurd h (by simp [isAtomic])

/-- The column of an array is that of its element, but repeated. -/
theorem toColumn_array {element : FieldType} (h : element.isCollection = false)
    (name : String) (nullable elementNullable : Bool) (description : Option String) :
    toColumn name nullable description (.array element elementNullable) =
      (toColumn name false description element).map fun c => { c with mode := some .repeated } := by
  have hplain : Field.plainColumn name element (some .repeated) description =
      (Field.plainColumn name element (Field.mode false) description).map
        fun c => { c with mode := some .repeated } := by
    simp only [Field.plainColumn]
    cases element.keyword <;> rfl
  cases element with
  | array | map => exact absurd h (by simp [isCollection])
  | row fields =>
    rw [toColumn, toColumn]
    cases toColumns fields <;> rfl
  | primitive | logical | unknown => exact hplain

/-- The column of a field whose type and nullability come from a column has the normal form of
the mode of that column. -/
theorem toColumn_withMode {type : FieldType} (hflat : type.isCollection = false) {c : Column}
    {name : String} {keyword description : Option String} {fields : Option (List Column)}
    (h : ∀ nullable, toColumn name nullable description type =
      .ok ⟨name, keyword, Field.mode nullable, fields, description⟩) :
    toColumn name c.isNullable description (Column.withMode c.mode type) =
      .ok ⟨name, keyword, Column.normalMode c.mode, fields, description⟩ := by
  have hmap := isMap_of_isCollection hflat
  obtain ⟨_, _, mode, _, _⟩ := c
  have hplain (hmode : mode ≠ some .repeated) : Column.withMode mode type = type :=
    if_neg fun hp => hmode hp.1
  cases mode with
  | none =>
    rw [hplain (by simp)]
    exact h true
  | some mode =>
    cases mode with
    | repeated =>
      have harray : Column.withMode (some .repeated) type = .array type false :=
        if_pos ⟨rfl, by simp [hmap]⟩
      rw [harray, toColumn_array hflat, h false]
      rfl
    | nullable =>
      rw [hplain (by simp)]
      exact h true
    | required | other =>
      rw [hplain (by simp)]
      exact h false

end FieldType

/-! ## There and back -/

namespace Column

/-- A keyword that is not that of a struct stands for a type without columns inside, and its
standard form is the keyword of that type. -/
theorem keyword_of_scalarType {keyword : Option String} {type : FieldType}
    (h : scalarType keyword = .ok type) :
    type.isAtomic = true ∧ ∃ k, keyword.map Keyword.standard = some k ∧ type.keyword = .ok k := by
  obtain ⟨k, rfl, hmem⟩ := scalarType_eq_ok h
  have hall : ∀ p ∈ scalarTypes, p.2.isAtomic = true ∧
      p.2.keyword.toOption = some (Keyword.standard p.1) := by decide
  obtain ⟨hatomic, hkeyword⟩ := hall _ hmem
  refine ⟨hatomic, Keyword.standard k, rfl, ?_⟩
  cases hk : type.keyword with
  | error e => exact absurd hkeyword (by simp [hk, Except.toOption])
  | ok k' =>
    rw [hk] at hkeyword
    exact congrArg Except.ok (Option.some.inj hkeyword)

/-- The type of a keyword that is not that of a struct has a column with the standard keyword. -/
theorem toColumn_of_scalarType {keyword : Option String} {type : FieldType}
    (h : scalarType keyword = .ok type) :
    type.isCollection = false ∧ ∀ name nullable description,
      FieldType.toColumn name nullable description type =
        .ok ⟨name, keyword.map Keyword.standard, Field.mode nullable, none, description⟩ := by
  obtain ⟨hatomic, k, hk, hkeyword⟩ := keyword_of_scalarType h
  refine ⟨FieldType.isCollection_of_isAtomic hatomic, fun name nullable description => ?_⟩
  rw [FieldType.toColumn_atomic hatomic, Field.plainColumn, hkeyword, hk]

/-- Fields of columns have the normal form of these as their columns, if the same holds of what
the types of the columns are made of. -/
theorem toColumns_of_toFields {columns : List Column} {fields : List Field}
    (hcolumns : ∀ c ∈ columns, ∀ {type}, baseType { } c = .ok type →
      type.isCollection = false ∧ ∀ name nullable description,
        FieldType.toColumn name nullable description type =
          .ok ⟨name, c.normal.keyword, Field.mode nullable, c.normal.fields, description⟩)
    (h : toFields { } columns = .ok fields) :
    FieldType.toColumns fields = .ok (normals columns) := by
  induction columns generalizing fields with
  | nil =>
    obtain rfl := Except.ok.inj h
    rfl
  | cons c columns ih =>
    obtain ⟨type, others, htype, hothers, rfl⟩ := toFields_cons_eq_ok h
    obtain ⟨hflat, hcolumn⟩ := hcolumns c List.mem_cons_self htype
    have hfirst := FieldType.toColumn_withMode (c := c) hflat fun nullable =>
      hcolumn c.name nullable (ConversionError.present? c.description)
    have hrest := ih (fun c hc => hcolumns c (List.mem_cons_of_mem _ hc)) hothers
    rw [FieldType.toColumns, ConversionError.present?_present?, hfirst, hrest]
    exact congrArg (fun c => Except.ok (c :: normals columns)) (normal_eq c).symm

/-- The type of a column, its mode aside, has the normal form of the column as its column. -/
theorem toColumn_of_baseType {c : Column} {type : FieldType} (h : baseType { } c = .ok type) :
    type.isCollection = false ∧ ∀ name nullable description,
      FieldType.toColumn name nullable description type =
        .ok ⟨name, c.normal.keyword, Field.mode nullable, c.normal.fields, description⟩ := by
  induction c generalizing type with
  | leaf name keyword mode description =>
    rw [baseType] at h
    rw [normal]
    split at h
    · rename_i hstruct
      obtain rfl := Except.ok.inj h
      rw [if_pos hstruct, Keyword.standard_of_isStruct hstruct]
      exact ⟨rfl, fun _ _ _ => rfl⟩
    · rename_i hstruct
      rw [if_neg hstruct]
      exact toColumn_of_scalarType h
  | nested name keyword mode columns description ih =>
    rw [baseType_nested] at h
    rw [normal]
    split at h
    · rename_i hstruct
      obtain ⟨fields, hfields, h⟩ := Outcome.bind_eq_ok.mp h
      obtain ⟨created, hcreated, hrow⟩ := Outcome.bind_eq_ok.mp h
      obtain ⟨rfl, _⟩ := Schema.create_eq_ok.mp hcreated
      obtain rfl := Except.ok.inj hrow
      have hcolumns := toColumns_of_toFields (fun c hc _ => ih c hc) hfields
      rw [if_pos hstruct, Keyword.standard_of_isStruct hstruct]
      refine ⟨rfl, fun name nullable description => ?_⟩
      rw [FieldType.toColumn, hcolumns]
      rfl
    · rename_i hstruct
      rw [if_neg hstruct]
      exact toColumn_of_scalarType h

end Column

/-- The columns of the schema of a table are the columns of the table in normal form. -/
theorem TableSchema.toTable_toSchema {columns : TableSchema} {schema : Schema}
    (h : columns.toSchema { inferMaps := false } = .ok schema) :
    schema.toTable = .ok columns.normal := by
  obtain ⟨fields, hfields, hcreated⟩ := Outcome.bind_eq_ok.mp h
  obtain ⟨rfl, _⟩ := Schema.create_eq_ok.mp hcreated
  exact Column.toColumns_of_toFields (fun _ _ _ htype => Column.toColumn_of_baseType htype) hfields

/-- A repeated legacy struct with a number in it, a nullable truth value, and a text that lists
columns of its own. -/
theorem TableSchema.toTable_toSchema_legacy :
    ∃ schema, TableSchema.toSchema { inferMaps := false }
        [⟨"visits", some "RECORD", some .repeated,
            some [⟨"page", some "INTEGER", some .required, none, some "number"⟩,
              ⟨"place", some "STRUCT", some .nullable, none, none⟩], some ""⟩,
          ⟨"known", some "BOOLEAN", some .nullable, none, none⟩,
          ⟨"note", some "STRING", none, some [⟨"x", some "FLOAT", none, none, none⟩], none⟩] =
        .ok schema ∧
      schema.toTable = .ok
        [⟨"visits", some "STRUCT", some .repeated,
            some [⟨"page", some "INT64", some .required, none, some "number"⟩,
              ⟨"place", some "STRUCT", none, some [], none⟩], none⟩,
          ⟨"known", some "BOOL", none, none, none⟩,
          ⟨"note", some "STRING", none, none, none⟩] := by
  obtain ⟨schema, hschema⟩ : ∃ schema, TableSchema.toSchema { inferMaps := false }
      [⟨"visits", some "RECORD", some .repeated,
          some [⟨"page", some "INTEGER", some .required, none, some "number"⟩,
            ⟨"place", some "STRUCT", some .nullable, none, none⟩], some ""⟩,
        ⟨"known", some "BOOLEAN", some .nullable, none, none⟩,
        ⟨"note", some "STRING", none, some [⟨"x", some "FLOAT", none, none, none⟩], none⟩] =
      .ok schema := ⟨_, rfl⟩
  exact ⟨schema, hschema, toTable_toSchema hschema⟩

end WarehouseRows
