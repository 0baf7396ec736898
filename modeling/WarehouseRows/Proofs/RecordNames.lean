import Mathlib.Data.List.Nodup
import WarehouseRows.Proofs.ListedTables

/-!
# The names of records in Avro schemas

A schema defines its records where they stand, and whoever reads it finds them by their full names.
In the schema of a table the root has the name of the table and every struct column that of the
column, and all of them share one namespace. So a name is free only if no struct column of the
table has it, at whatever depth, and the root neither.

## Main definitions

* `AvroSchema.recordNames`: the full names of the records in a schema.
* `Column.structNames`: the names of the struct columns in a column.
-/

namespace WarehouseRows

/-! ## Full names -/

namespace AvroSchema

/-- The full name of a record: its namespace, if it has one, and its name. -/
structure FullName where
  space : Option String
  name : String
  deriving DecidableEq, Repr

mutual

/-- The full names of the records in a schema, a record before those inside it. -/
def recordNames : AvroSchema → List FullName
  | .primitive _ | .logical _ _ | .decimal _ _ | .sqlText _ => []
  | .array items => recordNames items
  | .nullable type => recordNames type
  | .record name fields space _ => ⟨space, name⟩ :: fieldRecordNames fields

/-- The full names of the records in fields. -/
def fieldRecordNames : List AvroField → List FullName
  | [] => []
  | f :: rest => recordNames f.type ++ fieldRecordNames rest

end

theorem nodup_map_fullName (space : Option String) (names : List String) :
    (names.map (FullName.mk space)).Nodup ↔ names.Nodup :=
  List.nodup_map_iff fun _ _ h => congrArg FullName.name h

end AvroSchema

namespace Column

open AvroSchema (FullName recordNames fieldRecordNames)

/-! ## Struct columns -/

mutual

/-- The names of the struct columns in a column, its own before those inside it. -/
def structNames : Column → List String
  | ⟨name, keyword, _, some columns, _⟩ =>
    if isStruct keyword then name :: allStructNames columns else []
  | ⟨name, keyword, _, none, _⟩ => if isStruct keyword then [name] else []

/-- The names of the struct columns in columns. -/
def allStructNames : List Column → List String
  | [] => []
  | c :: rest => structNames c ++ allStructNames rest

end

theorem structNames_eq (c : Column) :
    c.structNames = if isStruct c.keyword then c.name :: allStructNames c.parts else [] := by
  obtain ⟨name, keyword, mode, fields, description⟩ := c
  cases fields <;> rfl

/-! ## Records and struct columns -/

/-- The mode of a column adds no record. -/
theorem recordNames_avroFieldOf (name : String) (mode : Option Mode) (description : Option String)
    (type : AvroSchema) : (avroFieldOf name mode description type).type.recordNames =
      type.recordNames := by
  cases mode with
  | none => rfl
  | some mode => cases mode <;> rfl

/-- The types without columns inside are not records. -/
theorem recordNames_avroScalar {keyword : Option String} {type : AvroSchema}
    (h : avroScalar keyword = .ok type) : type.recordNames = [] := by
  have hscalars : ∀ p ∈ avroScalars, p.2.recordNames = [] := by
    simp [avroScalars, recordNames]
  rw [avroScalar] at h
  split at h
  · rename_i found hfound
    obtain rfl := Except.ok.inj h
    obtain ⟨k, rfl, hk⟩ := Option.bind_eq_some_iff.mp hfound
    exact hscalars _ (Keyword.mem_of_lookup hk)
  · exact absurd h (by simp)

variable {space : Option String}

theorem fieldRecordNames_avroFields {columns : List Column} {fields : List AvroField}
    (hcolumns : ∀ c ∈ columns, ∀ type, avroType space c = .ok type →
      type.recordNames = c.structNames.map (FullName.mk (ConversionError.present? space)))
    (h : avroFields space columns = .ok fields) :
    fieldRecordNames fields =
      (allStructNames columns).map (FullName.mk (ConversionError.present? space)) := by
  induction columns generalizing fields with
  | nil =>
    obtain rfl := Except.ok.inj h
    rfl
  | cons c columns ih =>
    rw [avroFields] at h
    obtain ⟨type, htype, h⟩ := Outcome.bind_eq_ok.mp h
    obtain ⟨others, hothers, h⟩ := Outcome.bind_eq_ok.mp h
    obtain rfl := Except.ok.inj h
    have hfirst := hcolumns c List.mem_cons_self type (Outcome.mapError_eq_ok.mp htype)
    have hrest := ih (fun c hc => hcolumns c (List.mem_cons_of_mem _ hc)) hothers
    rw [fieldRecordNames, recordNames_avroFieldOf, hfirst, hrest, allStructNames, List.map_append]

/-- The records in the type of a column have the names of the struct columns in it, one for one. -/
theorem recordNames_avroType {c : Column} {type : AvroSchema} (h : avroType space c = .ok type) :
    type.recordNames = c.structNames.map (FullName.mk (ConversionError.present? space)) := by
  induction c using parts_induction generalizing type with
  | h c ih =>
    rw [avroType_eq] at h
    rw [structNames_eq]
    split at h
    · rename_i hstruct
      obtain ⟨fields, hfields, rfl⟩ := Outcome.map_eq_ok.mp h
      rw [if_pos hstruct, recordNames, fieldRecordNames_avroFields (fun d hd _ => ih d hd) hfields,
        List.map_cons]
    · rename_i hscalar
      rw [if_neg hscalar, recordNames_avroScalar h, List.map_nil]

end Column

/-! ## The schema of a table -/

namespace TableSchema

open AvroSchema (FullName)

/-- The records in the schema of a table have the name of the table and those of its struct columns,
all in one namespace. So their full names differ if and only if these names do. -/
theorem recordNames_toAvro {columns : TableSchema} {name : String} {space doc : Option String}
    {schema : AvroSchema} (h : columns.toAvro name space doc = .ok schema) :
    schema.recordNames =
        (name :: Column.allStructNames columns).map
          (FullName.mk (ConversionError.present? space)) ∧
      (schema.recordNames.Nodup ↔ (name :: Column.allStructNames columns).Nodup) := by
  rw [toAvro] at h
  obtain ⟨fields, hfields, h⟩ := Outcome.bind_eq_ok.mp h
  obtain rfl := Except.ok.inj h
  have hnames : (AvroSchema.record name fields (ConversionError.present? space)
      (ConversionError.present? doc)).recordNames =
        (name :: Column.allStructNames columns).map
          (FullName.mk (ConversionError.present? space)) := by
    rw [AvroSchema.recordNames,
      Column.fieldRecordNames_avroFields (fun _ _ _ => Column.recordNames_avroType) hfields,
      List.map_cons]
  exact ⟨hnames, hnames ▸ AvroSchema.nodup_map_fullName _ _⟩

/-- Orders with two addresses of different names, one of them repeated and in a struct itself. -/
theorem recordNames_toAvro_orders :
    let line : Column := ⟨"street", some "STRING", none, none, none⟩
    let columns : TableSchema :=
      [⟨"id", some "INT64", some .required, none, none⟩,
        ⟨"customer", some "RECORD", none,
          some [⟨"home", some "STRUCT", some .repeated, some [line], none⟩], none⟩,
        ⟨"target", some "STRUCT", none, some [line], none⟩]
    ∃ schema, columns.toAvro "orders" (some "shop") none = .ok schema ∧
      schema.recordNames =
        [⟨some "shop", "orders"⟩, ⟨some "shop", "customer"⟩, ⟨some "shop", "home"⟩,
          ⟨some "shop", "target"⟩] ∧
      schema.recordNames.Nodup := by
  intro line columns
  obtain ⟨schema, hschema⟩ : ∃ schema, columns.toAvro "orders" (some "shop") none = .ok schema :=
    ⟨_, rfl⟩
  obtain ⟨hnames, hnodup⟩ := recordNames_toAvro hschema
  exact ⟨schema, hschema, hnames, hnodup.mpr (by decide)⟩

/-- Two tables with a canonical schema, so with distinct names at each level, where records share
their full names: a struct with the name of the table, and two addresses in different structs. -/
theorem recordNames_toAvro_shared :
    let flag : Column := ⟨"n", some "BOOL", some .required, none, none⟩
    let address : Column := ⟨"address", some "STRUCT", some .required, some [flag], none⟩
    let shadowing : TableSchema := [⟨"a", some "STRUCT", some .required, some [flag], none⟩]
    let parallel : TableSchema :=
      [⟨"buyer", some "STRUCT", some .required, some [address], none⟩,
        ⟨"seller", some "STRUCT", some .required, some [address], none⟩]
    (shadowing.toSchema { }).toOption.isSome ∧ (parallel.toSchema { }).toOption.isSome ∧
      (∃ schema, shadowing.toAvro "a" none none = .ok schema ∧
        schema.recordNames = [⟨none, "a"⟩, ⟨none, "a"⟩] ∧ ¬ schema.recordNames.Nodup) ∧
      ∃ schema, parallel.toAvro "orders" (some "shop") none = .ok schema ∧
        schema.recordNames =
          [⟨some "shop", "orders"⟩, ⟨some "shop", "buyer"⟩, ⟨some "shop", "address"⟩,
            ⟨some "shop", "seller"⟩, ⟨some "shop", "address"⟩] ∧
        ¬ schema.recordNames.Nodup :=
  ⟨rfl, rfl, ⟨_, rfl, rfl, by decide⟩, _, rfl, rfl, by decide⟩

end TableSchema

end WarehouseRows
