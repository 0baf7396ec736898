import WarehouseRows.Avro.Schema
import WarehouseRows.Fingerprint.Descriptor
import WarehouseRows.Row.Stage

/-!
# Requests to the converter

The converter answers eight kinds of requests about schemas and rows. What the
answer is made of depends on the request.

## Main definitions

* `Request`: a request with its arguments.
* `Request.Answer`: the type of the answer to a request.
* `Request.answer`: the answer under given options.
* `Request.operation`, `Request.summary`: what a log says of a request.
-/

namespace WarehouseRows

/-- A request with its arguments. -/
inductive Request where
  /-- The schema of columns. -/
  | fromTableSchema (columns : TableSchema)
  /-- The columns of a schema. -/
  | toTableSchema (schema : Schema)
  /-- The table row of a value that stands for a row. -/
  | toTableRow (row : Value) (schema : Schema)
  /-- The row of a table row. -/
  | fromTableRow (schema : Schema) (tableRow : Value)
  /-- The row of a native record. -/
  | fromAvro (record : Value) (schema : Schema)
  /-- The table row of a native record. -/
  | avroToTableRow (record : Value) (columns : TableSchema)
  /-- The record schema that an export of a table has. -/
  | toAvroSchema (name : String) (columns : TableSchema) (space : Option String)
  /-- The fingerprint of the message that a table stores. -/
  | fingerprint (columns : TableSchema)

namespace Request

/-- The type of the answer to a request. -/
@[reducible] def Answer : Request → Type
  | .fromTableSchema _ => Schema
  | .toTableSchema _ => TableSchema
  | .toTableRow .. => Value
  | .fromTableRow .. => Row
  | .fromAvro .. => Row
  | .avroToTableRow .. => Value
  | .toAvroSchema .. => AvroSchema
  | .fingerprint _ => Int

/-- The answer to a request. -/
def answer (options : ConverterOptions) : (request : Request) → Except Failure request.Answer
  | .fromTableSchema columns => (columns.toSchema options.schema).mapError .conversion
  | .toTableSchema schema => schema.toTable.mapError .conversion
  | .toTableRow row schema => RowStage.writeTableRow schema row
  | .fromTableRow schema tableRow => Row.ofTableRow schema tableRow
  | .fromAvro record schema => Row.ofAvro options.conversion schema record
  | .avroToTableRow record columns => Row.avroToTableRow options.conversion columns record
  | .toAvroSchema name columns space =>
    (columns.toAvro name space none).mapError .conversion
  | .fingerprint columns => (columns.descriptor.map Descriptor.fingerprint).mapError .conversion

/-- The name of the operation that a request asks for. -/
def operation : Request → String
  | .fromTableSchema _ => "fromTableSchema"
  | .toTableSchema _ => "toTableSchema"
  | .toTableRow .. => "toTableRow"
  | .fromTableRow .. => "tableRowToRow"
  | .fromAvro .. => "avroRecordToRow"
  | .avroToTableRow .. => "avroRecordToTableRow"
  | .toAvroSchema .. => "toAvroSchema"
  | .fingerprint _ => "fingerprint"

/-- A member that holds a count. -/
def counted (name : String) (n : Nat) : String × Value :=
  (name, .count n)

/-- What a log says of the arguments of a request. Asking a row for its width may fail. -/
def summary : Request → Except Failure (Members Value)
  | .fromTableSchema columns => .ok [counted "field_count" columns.length]
  | .toTableSchema schema => .ok [counted "field_count" schema.length]
  | .toTableRow row schema =>
    (row.fieldOf Row.widthName).map fun width =>
      [("value_count", width), counted "field_count" schema.length]
  | .fromTableRow schema _ => .ok [counted "field_count" schema.length]
  | .fromAvro _ schema => .ok [counted "field_count" schema.length]
  | .avroToTableRow _ columns => .ok [counted "field_count" columns.length]
  | .toAvroSchema name columns _ =>
    .ok [("name", .string name), counted "field_count" columns.length]
  | .fingerprint columns => .ok [counted "field_count" columns.length]

end Request

end WarehouseRows
