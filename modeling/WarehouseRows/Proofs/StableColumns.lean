import WarehouseRows.Proofs.NormalForm
import WarehouseRows.Proofs.TableDocuments

/-!
# Columns that are read and written again

The columns of a schema are made of the keywords of its types and of nested columns for its rows
and maps. A logical type that has no keyword of its own and is stored as its base type takes the
keyword of the base, but never its nested columns. So the columns of a schema are read and written
again as they are, whatever else the types are, unless a logical type is stored as a row, whose
struct then has no columns inside, or as an array, whose keyword stands for no type.

## Main definitions

* `FieldType.stored`: the type as which a type is stored.
* `FieldType.NoneStoredAs`: the types in which no logical type is stored as one of a class.
* `Column.Carries`: the columns whose structs hold columns for all that is stored there.
-/

namespace WarehouseRows

namespace FieldType

/-! ## Stored types -/

/-- The type as which a type is stored: the base of a logical type that passes through, unless
the logical type has a keyword of its own. -/
def stored : FieldType → FieldType
  | .logical identifier base representation labels =>
    if representation = .passThrough ∧ Keyword.ofLogical? identifier = none then stored base
    else .logical identifier base representation labels
  | type => type

mutual

/-- Whether no logical type in a type is stored as one of a class. -/
def NoneStoredAs (p : FieldType → Bool) (type : FieldType) : Prop :=
  match type with
  | .array element _ => NoneStoredAs p element
  | .map key value _ => NoneStoredAs p key ∧ NoneStoredAs p value
  | .row fields => NoFieldStoredAs p fields
  | .logical identifier base representation labels =>
    p (stored (.logical identifier base representation labels)) = false
  | .primitive _ | .unknown _ => True

/-- Whether no logical type in fields is stored as one of a class. -/
def NoFieldStoredAs (p : FieldType → Bool) (fields : List Field) : Prop :=
  match fields with
  | [] => True
  | f :: rest => NoneStoredAs p f.type ∧ NoFieldStoredAs p rest

end

mutual

/-- Whether every kind in a type is known and the names in every row are distinct. -/
def IsProper (type : FieldType) : Prop :=
  match type with
  | .primitive _ => True
  | .array element _ => IsProper element
  | .map key value _ => IsProper key ∧ IsProper value
  | .row fields => (fields.map Named.name).Nodup ∧ AllProper fields
  | .logical _ base _ _ => IsProper base
  | .unknown _ => False

/-- Whether the type of each field is such a type. -/
def AllProper (fields : List Field) : Prop :=
  match fields with
  | [] => True
  | f :: rest => IsProper f.type ∧ AllProper rest

end

theorem isProper_item {type : FieldType} (h : type.IsProper) : type.item.IsProper := by
  cases type with
  | array element elementNullable => exact h
  | _ => exact h

/-- The nested columns of a type stand for fields with distinct names. -/
theorem isProper_structFields {type : FieldType} (h : type.IsProper) :
    (type.structFields.map Named.name).Nodup ∧ AllProper type.structFields := by
  have hrow {fields : List Field} (h : (FieldType.row fields).IsProper) :
      (fields.map Named.name).Nodup ∧ AllProper fields := h
  have hmap {key value : FieldType} {valueNullable : Bool}
      (h : (FieldType.map key value valueNullable).IsProper) :
      ((structFields (.map key value valueNullable)).map Named.name).Nodup ∧
        AllProper (structFields (.map key value valueNullable)) :=
    ⟨by simp [structFields, MapEntry.keyName, MapEntry.valueName], h.1, h.2, trivial⟩
  cases type with
  | row fields => exact hrow h
  | map key value valueNullable => exact hmap h
  | array element elementNullable =>
    cases element with
    | row fields => exact hrow h
    | map key value valueNullable => exact hmap h
    | primitive | array | logical | unknown => exact ⟨List.nodup_nil, trivial⟩
  | primitive | logical | unknown => exact ⟨List.nodup_nil, trivial⟩

/-! ## Keywords of stored types -/

/-- The keyword of a type tells as what the type is stored: a row, an array, or what the keyword
stands for. -/
theorem keyword_cases {type : FieldType} (hproper : type.IsProper) {k : String}
    (h : type.keyword = .ok k) :
    (type.stored.isRow = true ∧ type.stored.isArray = false ∧ k = "STRUCT") ∨
      (type.stored.isRow = false ∧ type.stored.isArray = true ∧ k = "ARRAY") ∨
      (type.stored.isRow = false ∧ type.stored.isArray = false ∧
        Column.isStruct (some k) = false ∧ ∃ back, Column.scalarType (some k) = .ok back) := by
  induction type with
  | primitive kind =>
    refine Or.inr (Or.inr ?_)
    cases kind <;> obtain rfl := Except.ok.inj h <;> exact ⟨rfl, rfl, rfl, _, rfl⟩
  | array element elementNullable =>
    obtain rfl := Except.ok.inj h
    exact Or.inr (Or.inl ⟨rfl, rfl, rfl⟩)
  | map key value valueNullable => exact absurd h (by simp [keyword])
  | row fields =>
    obtain rfl := Except.ok.inj h
    exact Or.inl ⟨rfl, rfl, rfl⟩
  | logical identifier base representation labels ih =>
    rw [keyword] at h
    split at h
    · rename_i found hfound
      obtain rfl := Except.ok.inj h
      have hown : stored (.logical identifier base representation labels) =
          .logical identifier base representation labels :=
        if_neg (by simp [hfound])
      have hall : ∀ p ∈ Keyword.logicals, Column.isStruct (some p.2) = false ∧
          (Column.scalarType (some p.2)).toBool = true := by decide
      obtain ⟨hstruct, hscalar⟩ := hall _ (Keyword.mem_of_lookup hfound)
      rw [hown]
      refine Or.inr (Or.inr ⟨rfl, rfl, hstruct, ?_⟩)
      cases hback : Column.scalarType (some found) with
      | ok back => exact ⟨back, rfl⟩
      | error e => exact absurd hscalar (by simp [hback, Except.toBool])
    · rename_i hnone
      split at h
      · rename_i hpass
        have hbase : stored (.logical identifier base representation labels) = stored base :=
          if_pos ⟨hpass, hnone⟩
        rw [hbase]
        exact ih hproper h
      · exact absurd h (by simp)
  | unknown kind => exact absurd hproper id

/-- The keywords of types are the standard ones. -/
theorem standard_of_keyword {type : FieldType} {k : String} (h : type.keyword = .ok k) :
    Keyword.standard k = k := by
  have hall : ∀ k ∈ (Keyword.kinds ++ Keyword.logicals).map Prod.snd,
      Keyword.standard k = k := by decide
  exact hall k (mem_of_keyword h)

/-- A type without columns inside has nothing stored but itself. -/
theorem noneStoredAs_of_isAtomic {type : FieldType} (hproper : type.IsProper)
    (hatomic : type.isAtomic = true) {p : FieldType → Bool}
    (hp : ∀ kind, p (.primitive kind) = false) :
    type.NoneStoredAs p ↔ p type.stored = false := by
  cases type with
  | primitive kind => simp [NoneStoredAs, stored, hp]
  | logical identifier base representation labels => rw [NoneStoredAs]
  | unknown kind => exact absurd hproper id
  | array | map | row => exact absurd hatomic (by simp [isAtomic])

theorem noneStoredAs_item {type : FieldType} (p : FieldType → Bool) :
    type.NoneStoredAs p ↔ type.item.NoneStoredAs p := by
  cases type <;> rfl

/-- A type with columns inside holds what the fields of its struct hold. -/
theorem noneStoredAs_structFields {type : FieldType} (hatomic : type.item.isAtomic = false)
    (harray : type.item.isArray = false) (p : FieldType → Bool) :
    type.NoneStoredAs p ↔ NoFieldStoredAs p type.structFields := by
  have hmap (key value : FieldType) (valueNullable : Bool) :
      NoneStoredAs p (.map key value valueNullable) ↔
        NoFieldStoredAs p (structFields (.map key value valueNullable)) := by
    simp [NoneStoredAs, structFields, NoFieldStoredAs]
  cases type with
  | primitive | logical | unknown => exact absurd hatomic (by simp [item, isAtomic])
  | row fields => exact Iff.rfl
  | map key value valueNullable => exact hmap key value valueNullable
  | array element elementNullable =>
    cases element with
    | primitive | logical | unknown => exact absurd hatomic (by simp [item, isAtomic])
    | array => exact absurd harray (by simp [item, isArray])
    | row fields => exact Iff.rfl
    | map key value valueNullable => exact hmap key value valueNullable

theorem stored_of_isAtomic {type : FieldType} (h : type.isAtomic = false) :
    type.stored = type := by
  cases type with
  | logical => exact absurd h (by simp [isAtomic])
  | _ => rfl

theorem structFields_item {type : FieldType} (harray : type.item.isArray = false) :
    type.item.structFields = type.structFields := by
  cases type with
  | array element elementNullable =>
    cases element with
    | array => exact absurd harray (by simp [item, isArray])
    | _ => rfl
  | _ => rfl

/-! ## Columns of types -/

/-- A column either holds columns for the fields of a struct or has the keyword of what it
holds. Its mode is one that columns in normal form have. -/
theorem toColumn_cases {name : String} {nullable : Bool} {description : Option String}
    {type : FieldType} {c : Column} (h : toColumn name nullable description type = .ok c) :
    (∃ mode columns, c = ⟨name, some "STRUCT", mode, some columns, description⟩ ∧
      Column.normalMode mode = mode ∧ type.item.isAtomic = false ∧ type.item.isArray = false ∧
      toColumns type.structFields = .ok columns) ∨
    ∃ mode k, c = ⟨name, some k, mode, none, description⟩ ∧ Column.normalMode mode = mode ∧
      type.item.isAtomic = true ∧ type.item.keyword = .ok k := by
  have hmode (nullable : Bool) : Column.normalMode (Field.mode nullable) = Field.mode nullable := by
    cases nullable <;> rfl
  cases type with
  | row fields =>
    obtain ⟨columns, hcolumns, rfl⟩ := toColumn_row_eq_ok h
    exact Or.inl ⟨_, columns, rfl, hmode nullable, rfl, rfl, hcolumns⟩
  | map key value valueNullable =>
    obtain ⟨keyColumn, valueColumn, hkey, hvalue, rfl⟩ := toColumn_map_eq_ok h
    exact Or.inl ⟨_, _, rfl, rfl, rfl, rfl, toColumns_entry hkey hvalue⟩
  | primitive | logical | unknown =>
    obtain ⟨k, hk, rfl⟩ := plainColumn_eq_ok h
    exact Or.inr ⟨_, k, rfl, hmode nullable, rfl, hk⟩
  | array element elementNullable =>
    cases element with
    | array => exact absurd h (by simp [toColumn])
    | row fields =>
      obtain ⟨columns, hcolumns, h⟩ := Outcome.bind_eq_ok.mp h
      obtain rfl := Except.ok.inj h
      exact Or.inl ⟨_, columns, rfl, rfl, rfl, rfl, hcolumns⟩
    | map key value valueNullable =>
      have hmap : toColumn name nullable description (.map key value valueNullable) = .ok c := h
      obtain ⟨keyColumn, valueColumn, hkey, hvalue, rfl⟩ := toColumn_map_eq_ok hmap
      exact Or.inl ⟨_, _, rfl, rfl, rfl, rfl, toColumns_entry hkey hvalue⟩
    | primitive | logical | unknown =>
      obtain ⟨k, hk, rfl⟩ := plainColumn_eq_ok h
      exact Or.inr ⟨_, k, rfl, rfl, rfl, hk⟩

end FieldType

open FieldType

/-! ## Nested columns -/

namespace Column

mutual

/-- Whether every struct in a column holds columns for the fields of what is stored there. -/
def Carries (type : FieldType) (c : Column) : Prop :=
  match c with
  | ⟨_, keyword, _, some columns, _⟩ =>
    isStruct keyword = true → AllCarry type.item.stored.structFields columns
  | ⟨_, keyword, _, none, _⟩ => isStruct keyword = false

/-- Whether columns stand for fields, one for each in order, and the structs in them hold columns
for what is stored there. -/
def AllCarry (fields : List Field) (columns : List Column) : Prop :=
  match fields, columns with
  | [], [] => True
  | f :: fields, c :: columns => c.name = f.name ∧ Carries f.type c ∧ AllCarry fields columns
  | _, _ => False

end

/-! ## One column at a time -/

/-- What the logical types of a type tell about its column: whether its structs hold their columns,
whether it is read, and whether it is in normal form. -/
structure Settles (type : FieldType) (c : Column) : Prop where
  carries_iff : c.Carries type ↔ type.NoneStoredAs isRow
  readable_iff : (∃ base, baseType { } c = .ok base) ↔ type.NoneStoredAs isArray
  normal_iff : c.normal = c ↔ type.NoneStoredAs isRow

/-- The same of the columns of fields. -/
structure AllSettle (fields : List Field) (columns : List Column) : Prop where
  carry_iff : AllCarry fields columns ↔ NoFieldStoredAs isRow fields
  readable_iff : (∃ back, toFields { } columns = .ok back) ↔ NoFieldStoredAs isArray fields
  normal_iff : normals columns = columns ↔ NoFieldStoredAs isRow fields

theorem exists_toFields_cons {options : SchemaOptions} {c : Column} {columns : List Column} :
    (∃ back, toFields options (c :: columns) = .ok back) ↔
      (∃ base, baseType options c = .ok base) ∧ ∃ back, toFields options columns = .ok back := by
  constructor
  · rintro ⟨back, hback⟩
    obtain ⟨type, others, htype, hothers, _⟩ := toFields_cons_eq_ok hback
    exact ⟨⟨type, htype⟩, others, hothers⟩
  · rintro ⟨⟨base, hbase⟩, back, hback⟩
    rw [toFields, hbase, hback]
    exact ⟨_, rfl⟩

/-- Columns settle if each of them does. -/
theorem allSettle_of_toColumns {fields : List Field} {columns : List Column}
    (hproper : AllProper fields)
    (hcolumns : ∀ c ∈ columns, ∀ {name nullable description type}, type.IsProper →
      ConversionError.present? description = description →
      toColumn name nullable description type = .ok c → Settles type c)
    (h : toColumns fields = .ok columns) : AllSettle fields columns := by
  induction fields generalizing columns with
  | nil =>
    obtain rfl := Except.ok.inj h
    exact ⟨Iff.rfl, ⟨fun _ => trivial, fun _ => ⟨[], rfl⟩⟩, ⟨fun _ => trivial, fun _ => rfl⟩⟩
  | cons f fields ih =>
    obtain ⟨c, others, hc, hothers, rfl⟩ := toColumns_cons_eq_ok h
    have hfirst := hcolumns c List.mem_cons_self hproper.1
      (ConversionError.present?_present? f.description) hc
    have hrest := ih hproper.2 (fun c hmem => hcolumns c (List.mem_cons_of_mem _ hmem)) hothers
    refine ⟨?_, ?_, ?_⟩
    · simp only [AllCarry, NoFieldStoredAs, name_of_toColumn hc, true_and, hfirst.carries_iff,
        hrest.carry_iff]
    · rw [exists_toFields_cons, hfirst.readable_iff, hrest.readable_iff, NoFieldStoredAs]
    · rw [normals, List.cons.injEq, hfirst.normal_iff, hrest.normal_iff, NoFieldStoredAs]

/-- A column with the keyword of what it holds settles: the keyword tells as what that is
stored. -/
theorem settles_leaf {type : FieldType} {k : String} (hproper : type.IsProper)
    (hatomic : type.item.isAtomic = true) (hk : type.item.keyword = .ok k) {mode : Option Mode}
    (hmode : normalMode mode = mode) {description : Option String}
    (hdescription : ConversionError.present? description = description) (name : String) :
    Settles type ⟨name, some k, mode, none, description⟩ := by
  have hitem := isProper_item hproper
  have hrow : type.NoneStoredAs isRow ↔ type.item.stored.isRow = false :=
    (noneStoredAs_item isRow).trans (noneStoredAs_of_isAtomic hitem hatomic fun _ => rfl)
  have harray : type.NoneStoredAs isArray ↔ type.item.stored.isArray = false :=
    (noneStoredAs_item isArray).trans (noneStoredAs_of_isAtomic hitem hatomic fun _ => rfl)
  have hstandard := standard_of_keyword hk
  rcases keyword_cases hitem hk with ⟨hr, ha, rfl⟩ | ⟨hr, ha, rfl⟩ | ⟨hr, ha, hplain, back, hback⟩
  · refine ⟨?_, ?_, ?_⟩
    · simp [hrow, hr, Carries, isStruct]
    · simp [harray, ha, baseType, isStruct]
    · simp [hrow, hr, normal, isStruct]
  · have hnone : scalarType (some "ARRAY") = .error (noType (some "ARRAY")) := rfl
    refine ⟨?_, ?_, ?_⟩
    · simp [hrow, hr, Carries, isStruct]
    · simp [harray, ha, baseType, isStruct, hnone]
    · simp [hrow, hr, normal, isStruct, hmode, hdescription, hstandard]
  · refine ⟨?_, ?_, ?_⟩
    · simp [hrow, hr, Carries, hplain]
    · simp [harray, ha, baseType, hplain, hback]
    · simp [hrow, hr, normal, hplain, hmode, hdescription, hstandard]

/-- A column that holds columns settles if these do. -/
theorem settles_struct {type : FieldType} {columns : List Column} (hproper : type.IsProper)
    (hatomic : type.item.isAtomic = false) (harray : type.item.isArray = false)
    (hcolumns : toColumns type.structFields = .ok columns)
    (hall : AllSettle type.structFields columns) {mode : Option Mode}
    (hmode : normalMode mode = mode) {description : Option String}
    (hdescription : ConversionError.present? description = description) (name : String) :
    Settles type ⟨name, some "STRUCT", mode, some columns, description⟩ := by
  have hstruct : isStruct (some "STRUCT") = true := by decide
  have hfields : type.item.stored.structFields = type.structFields := by
    rw [stored_of_isAtomic hatomic, structFields_item harray]
  refine ⟨?_, ?_, ?_⟩
  · rw [Carries, hfields, noneStoredAs_structFields hatomic harray, ← hall.carry_iff]
    exact ⟨fun h => h hstruct, fun h _ => h⟩
  · rw [noneStoredAs_structFields hatomic harray, ← hall.readable_iff, baseType_nested,
      if_pos hstruct]
    constructor
    · rintro ⟨base, hbase⟩
      obtain ⟨back, hback, _⟩ := Outcome.bind_eq_ok.mp hbase
      exact ⟨back, hback⟩
    · rintro ⟨back, hback⟩
      have hnames : (back.map Named.name).Nodup := by
        rw [names_of_toFields hback, names_of_toColumns hcolumns]
        exact (isProper_structFields hproper).1
      rw [hback, Outcome.ok_bind, Schema.create_eq_ok.mpr ⟨rfl, hnames⟩]
      exact ⟨_, rfl⟩
  · have hstandard : Keyword.standard "STRUCT" = "STRUCT" := by decide
    rw [noneStoredAs_structFields hatomic harray, ← hall.normal_iff, normal, if_pos hstruct, hmode,
      hdescription]
    simp [hstandard]

/-- The column of a field settles. -/
theorem settles_of_toColumn {c : Column} {name : String} {nullable : Bool}
    {description : Option String} {type : FieldType} (hproper : type.IsProper)
    (hdescription : ConversionError.present? description = description)
    (h : toColumn name nullable description type = .ok c) : Settles type c := by
  induction c generalizing name nullable description type with
  | leaf cname keyword cmode cdescription =>
    obtain ⟨mode, columns, heq, _⟩ | ⟨mode, k, heq, hmode, hatomic, hk⟩ := toColumn_cases h
    · exact absurd heq (by simp)
    · rw [heq]
      exact settles_leaf hproper hatomic hk hmode hdescription name
  | nested cname keyword cmode columns cdescription ih =>
    obtain ⟨mode, columns', heq, hmode, hatomic, harray, hcolumns⟩ | ⟨mode, k, heq, _⟩ :=
      toColumn_cases h
    · obtain rfl : columns = columns' := by simpa using congrArg Column.fields heq
      rw [heq]
      have hall := allSettle_of_toColumns (isProper_structFields hproper).2
        (fun c hc _ _ _ _ => ih c hc) hcolumns
      exact settles_struct hproper hatomic harray hcolumns hall hmode hdescription name
    · exact absurd heq (by simp)

end Column

/-! ## Schemas -/

/-- The columns of a schema, read and written again. Their structs hold columns for all that is
stored in them exactly if no logical type is stored as a row, they are read exactly if no logical
type is stored as an array, and what is read is written as the same columns exactly if, again, no
logical type is stored as a row. -/
theorem Schema.toTable_settles {schema : Schema} {columns : TableSchema}
    (hproper : (FieldType.row schema).IsProper) (h : schema.toTable = .ok columns) :
    (Column.AllCarry schema columns ↔ (FieldType.row schema).NoneStoredAs isRow) ∧
      ((∃ back, columns.toSchema { inferMaps := false } = .ok back) ↔
        (FieldType.row schema).NoneStoredAs isArray) ∧
      ∀ back, columns.toSchema { inferMaps := false } = .ok back →
        (back.toTable = .ok columns ↔ (FieldType.row schema).NoneStoredAs isRow) := by
  obtain ⟨hnames, hall⟩ := hproper
  have hsettle := Column.allSettle_of_toColumns hall
    (fun c _ _ _ _ _ => Column.settles_of_toColumn) h
  refine ⟨hsettle.carry_iff, ?_, ?_⟩
  · rw [NoneStoredAs, ← hsettle.readable_iff]
    constructor
    · rintro ⟨back, hback⟩
      obtain ⟨fields, hfields, _⟩ := Outcome.bind_eq_ok.mp hback
      exact ⟨fields, hfields⟩
    · rintro ⟨fields, hfields⟩
      have hdistinct : (fields.map Named.name).Nodup := by
        rw [Column.names_of_toFields hfields, names_of_toColumns h]
        exact hnames
      refine ⟨fields, ?_⟩
      rw [TableSchema.toSchema, hfields]
      exact Schema.create_eq_ok.mpr ⟨rfl, hdistinct⟩
  · intro back hback
    obtain ⟨fields, hfields, hcreated⟩ := Outcome.bind_eq_ok.mp hback
    obtain ⟨rfl, _⟩ := Schema.create_eq_ok.mp hcreated
    have hagain : Schema.toTable back = .ok (Column.normals columns) :=
      Column.toColumns_of_toFields (fun _ _ _ htype => Column.toColumn_of_baseType htype) hfields
    rw [hagain, Except.ok.injEq, NoneStoredAs]
    exact hsettle.normal_iff

/-- An enumeration, and a map of small numbers to lists of texts that go by another name. -/
theorem Schema.toTable_settles_sizes :
    ∃ columns back,
      Schema.toTable [⟨"sort", .enumeration ["old", "new"], true, some "by age"⟩,
        ⟨"sizes", .map (.primitive .byte)
          (.array (.passThrough "label" (.primitive .string)) false) true, true, none⟩] =
        .ok columns ∧
      columns.toSchema { inferMaps := false } = .ok back ∧ back.toTable = .ok columns := by
  let schema : Schema := [⟨"sort", .enumeration ["old", "new"], true, some "by age"⟩,
    ⟨"sizes", .map (.primitive .byte)
      (.array (.passThrough "label" (.primitive .string)) false) true, true, none⟩]
  have hproper : (FieldType.row schema).IsProper := by
    simp [schema, IsProper, AllProper, enumeration, passThrough]
  have hnone (p : FieldType → Bool) (hp : p (.enumeration ["old", "new"]) = false)
      (hp' : p (.primitive .string) = false) : (FieldType.row schema).NoneStoredAs p :=
    ⟨hp, ⟨trivial, hp'⟩, trivial⟩
  obtain ⟨columns, hcolumns⟩ : ∃ columns, schema.toTable = .ok columns := ⟨_, rfl⟩
  obtain ⟨_, hread, hagain⟩ := toTable_settles hproper hcolumns
  obtain ⟨back, hback⟩ := hread.mpr (hnone isArray rfl rfl)
  exact ⟨columns, back, hcolumns, hback, (hagain back hback).mpr (hnone isRow rfl rfl)⟩

/-- A row that goes by another name has a struct without columns, which comes back as one with an
empty list of them; and an array that goes by another name has a keyword that stands for no type. -/
theorem Schema.toTable_renamed :
    Schema.toTable [⟨"a", .passThrough "pair" (.row [⟨"n", .primitive .int64, false, none⟩]),
        false, none⟩] = .ok [⟨"a", some "STRUCT", some .required, none, none⟩] ∧
      TableSchema.toSchema { inferMaps := false }
        [⟨"a", some "STRUCT", some .required, none, none⟩] =
          .ok [⟨"a", .row [], false, none⟩] ∧
      Schema.toTable [⟨"a", .row [], false, none⟩] =
        .ok [⟨"a", some "STRUCT", some .required, some [], none⟩] ∧
      Schema.toTable [⟨"a", .passThrough "list" (.array (.primitive .int64) false), false, none⟩] =
        .ok [⟨"a", some "ARRAY", some .required, none, none⟩] ∧
      TableSchema.toSchema { inferMaps := false }
        [⟨"a", some "ARRAY", some .required, none, none⟩] =
          .error ((Column.noType (some "ARRAY")).withField "a") :=
  ⟨rfl, rfl, rfl, rfl, rfl⟩

end WarehouseRows
