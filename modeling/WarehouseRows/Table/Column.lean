import WarehouseRows.Json.Basic

/-!
# Table schemas

A table schema lists the columns of a warehouse table. A column has a type keyword,
standard or legacy, a mode that says whether it is required, nullable or repeated,
and, for structs, nested columns. A column without a mode is nullable.

## Main definitions

* `Column`, `TableSchema`: columns in order.
* `Column.Mode`: the modes.
* `Column.toJson`, `Column.document`: the JSON form.
-/

namespace WarehouseRows

/-- Whether a column must, may or repeatedly does have a value. -/
inductive Column.Mode where
  | required
  | nullable
  | repeated
  | other (name : String)
  deriving DecidableEq, Repr, Inhabited

namespace Column.Mode

/-- The modes and their written forms. -/
def words : List (String × Mode) :=
  [("REQUIRED", .required), ("NULLABLE", .nullable), ("REPEATED", .repeated)]

/-- The written form of a mode. -/
def name : Mode → String
  | .required => "REQUIRED"
  | .nullable => "NULLABLE"
  | .repeated => "REPEATED"
  | .other name => name

/-- The mode with a written form. -/
def ofName (name : String) : Mode :=
  (words.lookup name).getD (.other name)

end Column.Mode

/-- A column of a table. -/
structure Column where
  name : String
  /-- The type keyword; a column without one has no type. -/
  keyword : Option String
  mode : Option Column.Mode := none
  /-- The columns inside a struct. -/
  fields : Option (List Column) := none
  description : Option String := none
  deriving Repr, Inhabited

/-- The columns of a table, in order. -/
abbrev TableSchema := List Column

namespace Column

/-- Whether the mode allows a missing value: no mode, or the nullable one. -/
def isNullable (c : Column) : Bool :=
  match c.mode with
  | none => true
  | some mode => mode == .nullable

/-- Whether a type keyword stands for a struct. -/
def isStruct (keyword : Option String) : Bool :=
  keyword == some "STRUCT" || keyword == some "RECORD"

/-- What a table of type keywords holds for one. -/
def lookUp {α : Type} (table : List (String × α)) (keyword : Option String) : Option α :=
  keyword.bind fun k => table.lookup k

/-- A type keyword in messages. -/
def shownKeyword (keyword : Option String) : String :=
  keyword.getD "undefined"

/-- The members of the JSON form from their parts. -/
def document (name : String) (keyword description : Option String) (mode : Option Mode)
    (fields : Option (List Json)) (modeLast : Bool) : Json :=
  let modeMember := Json.optional "mode" (mode.map fun m => .string m.name)
  let fieldsMember := Json.optional "fields" (fields.map .array)
  .object <|
    [("name", .string name)] ++ Json.optional "type" (keyword.map .string) ++
      Json.optional "description" (description.map .string) ++
      (if modeLast then fieldsMember ++ modeMember else modeMember ++ fieldsMember)

mutual

/-- The JSON form of a column. -/
def toJson : Column → Json
  | ⟨name, keyword, mode, some fields, description⟩ =>
    document name keyword description mode (some (toJsons fields)) false
  | ⟨name, keyword, mode, none, description⟩ =>
    document name keyword description mode none false

/-- The JSON forms of columns. -/
def toJsons : List Column → List Json
  | [] => []
  | c :: rest => toJson c :: toJsons rest

end

end Column

/-- The JSON form of a table schema. -/
def TableSchema.toJson (columns : TableSchema) : Json :=
  .object [("fields", .array (Column.toJsons columns))]

end WarehouseRows
