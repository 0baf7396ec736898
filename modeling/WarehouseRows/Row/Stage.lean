import WarehouseRows.Avro.Reader
import WarehouseRows.Row.Encode
import WarehouseRows.Row.Parse
import WarehouseRows.Table.Canonical
import WarehouseRows.Value.Record

/-!
# Stages of a pipeline

A stage of a pipeline converts one row at a time. A stage that depends on a schema
is made once for the schema, so that what can be wrong with the schema shows before
the first row.

## Main definitions

* `RowStage`: the conversion of one row.
* `RowStage.readTableRow`, `RowStage.writeTableRow`, `RowStage.readAvro`: the stages
  of a schema.
* `RowStage.thenTableRow`: a stage with the writer behind it.
* `RowStage.avroToTableRow`: from native records to table rows.
-/

namespace WarehouseRows

/-- The conversion of one row. -/
abbrev RowStage (α β : Type) := α → Except Failure β

namespace RowStage

/-- Table rows to canonical rows. -/
def readTableRow (schema : Schema) : RowStage Value Row :=
  Row.ofTableRow schema

/-- Values that stand for canonical rows to table rows. -/
def writeTableRow (schema : Schema) : RowStage Value Value :=
  fun row => (Row.ofValue schema row).bind fun values => values.toTableRow schema

/-- Native records to canonical rows. -/
def readAvro (options : ConversionOptions) (schema : Schema) : RowStage Value Row :=
  Row.ofAvro options schema

/-- A stage that ends in canonical rows, continued to table rows. -/
def thenTableRow {α : Type} (stage : RowStage α Row) (schema : Schema) : RowStage α Value :=
  fun input => (stage input).bind fun row => row.toTableRow schema

/-- Native records of a table to table rows. The schema is the one that the columns
have when no struct is taken for a map. -/
def avroToTableRow (options : ConversionOptions) (columns : TableSchema) :
    Except ConversionError (RowStage Value Value) :=
  (columns.toSchema {}).map fun schema => (readAvro options schema).thenTableRow schema

end RowStage

/-- The table row of a native record of a table. -/
def Row.avroToTableRow (options : ConversionOptions) (columns : TableSchema) (record : Value) :
    Except Failure Value := do
  let stage ← (RowStage.avroToTableRow options columns).mapError .conversion
  stage record

end WarehouseRows
