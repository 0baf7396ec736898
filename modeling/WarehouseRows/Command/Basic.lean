import WarehouseRows.Converter.Journal
import WarehouseRows.Schema.Definition
import WarehouseRows.Table.Definition

/-!
# Commands

Each command reads one document, asks the converter for one answer and writes the
answer as text.

## Main definitions

* `Command`: a command.
* `Command.ofName?`: the command with a name.
* `Command.perform`: the text that a command gives for a document.
-/

namespace WarehouseRows

/-- A command. -/
inductive Command where
  /-- The canonical schema of a table schema. -/
  | schema
  /-- The table schema of a canonical schema. -/
  | tableSchema
  /-- The fingerprint of a table schema. -/
  | fingerprint
  /-- The record schema of an export of a table schema. -/
  | avroSchema (name : String) (space : Option String)
  deriving DecidableEq, Repr

namespace Command

/-- The command with a name; the other two arguments are for the command that gives a
record schema. -/
def ofName? (word name : String) (space : Option String) : Option Command :=
  match word with
  | "schema" => some .schema
  | "table-schema" => some .tableSchema
  | "fingerprint" => some .fingerprint
  | "avro-schema" => some (.avroSchema name space)
  | _ => none

/-- The columns that a document describes. -/
def columns (j : Json) : Except Failure TableSchema :=
  (TableSchema.ofJson j).mapError .conversion

/-- The schema that a document describes. -/
def schemaOf (j : Json) : Except Failure Schema :=
  match Schema.ofDefinition j with
  | .ok outcome => outcome.mapError .conversion
  | .error issues => .error (.shape issues)

/-- The text that a command gives for a document, and the lines that it leaves in the
journal. -/
def perform (journal : Journal) (options : ConverterOptions) (command : Command) (j : Json) :
    Except Failure String × List String :=
  match command with
  | .schema =>
    match columns j with
    | .error failure => (.error failure, [])
    | .ok columns =>
      let (answer, lines) := journal.answer options (.fromTableSchema columns)
      (answer.map fun fields : Schema => fields.toDefinition.indented, lines)
  | .tableSchema =>
    match schemaOf j with
    | .error failure => (.error failure, [])
    | .ok fields =>
      let (answer, lines) := journal.answer options (.toTableSchema fields)
      (answer.map fun columns : TableSchema => (fields.tableDocument columns).indented, lines)
  | .fingerprint =>
    match columns j with
    | .error failure => (.error failure, [])
    | .ok columns =>
      let (answer, lines) := journal.answer options (.fingerprint columns)
      (answer.map fun hash : Int => toString hash, lines)
  | .avroSchema name space =>
    match columns j with
    | .error failure => (.error failure, [])
    | .ok columns =>
      let (answer, lines) := journal.answer options (.toAvroSchema name columns space)
      (answer.map fun record : AvroSchema => record.toJson.indented, lines)

end Command

end WarehouseRows
