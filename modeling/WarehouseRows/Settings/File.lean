import WarehouseRows.Json.Parent
import WarehouseRows.Json.Shape
import WarehouseRows.Log.Level
import WarehouseRows.Options
import WarehouseRows.Settings.Document
import WarehouseRows.Settings.Environment

/-!
# Settings files

A settings file is a JSON document with a section for the value converters, one for
the schema converters and one for the log. Every section and every setting may be
missing, and nothing else may be there. Its strings may refer to environment
variables; these are replaced before anything is checked. A section may have a parent,
whose settings count where it has none of its own.

## Main definitions

* `Settings`: the settings that a file gives.
* `Settings.ofJson`, `Settings.ofText`: reading a document and the content of a file.
* `Settings.options`: the options of the converters, with defaults for what is
  missing.
-/

namespace WarehouseRows

/-- The section for the value converters. -/
structure ConversionSection where
  truncateTimestamps : Option TimestampPolicy := none
  deriving Repr, Inhabited

/-- The section for the schema converters. -/
structure SchemaSection where
  inferMaps : Option Bool := none
  deriving Repr, Inhabited

/-- The section for the log. -/
structure LoggingSection where
  format : Option LogFormat := none
  level : Option LogLevel := none
  deriving Repr, Inhabited

/-- The settings that a file gives. -/
structure Settings where
  /-- Where the shape of settings files is described; editors use it. -/
  reference : Option String := none
  conversion : Option ConversionSection := none
  schema : Option SchemaSection := none
  logging : Option LoggingSection := none
  deriving Repr, Inhabited

/-! ## Sections -/

namespace ConversionSection

/-- The section that a document holds. -/
def check (j : Json) : Checked ConversionSection :=
  match j with
  | .object members =>
    Shape.closed ["truncateTimestamps"] members <|
      ConversionSection.mk <$>
        Shape.member members "truncateTimestamps"
          (Shape.optional (Shape.oneOf TimestampPolicy.words))
  | j => Shape.wrongKind "object" j

/-- The JSON form of a section. -/
def toJson (s : ConversionSection) : Json :=
  .object (Json.optional "truncateTimestamps" (s.truncateTimestamps.map fun p => .string p.name))

end ConversionSection

namespace SchemaSection

/-- The section that a document holds. -/
def check (j : Json) : Checked SchemaSection :=
  match j with
  | .object members =>
    Shape.closed ["inferMaps"] members <|
      SchemaSection.mk <$> Shape.member members "inferMaps" (Shape.optional Shape.bool)
  | j => Shape.wrongKind "object" j

/-- The JSON form of a section. -/
def toJson (s : SchemaSection) : Json :=
  .object (Json.optional "inferMaps" (s.inferMaps.map .bool))

end SchemaSection

namespace LoggingSection

/-- The section that a document holds. -/
def check (j : Json) : Checked LoggingSection :=
  match j with
  | .object members =>
    Shape.closed ["format", "level"] members <|
      LoggingSection.mk <$>
        Shape.member members "format" (Shape.optional (Shape.oneOf LogFormat.words)) <*>
        Shape.member members "level" (Shape.optional (Shape.oneOf LogLevel.words))
  | j => Shape.wrongKind "object" j

/-- The JSON form of a section. -/
def toJson (s : LoggingSection) : Json :=
  .object <|
    Json.optional "format" (s.format.map fun f => .string f.name) ++
      Json.optional "level" (s.level.map fun l => .string l.name)

end LoggingSection

/-! ## Whole files -/

namespace Settings

/-- The settings that a document holds. -/
def check (j : Json) : Checked Settings :=
  match j with
  | .object members =>
    Shape.closed ["$schema", "conversion", "schema", "logging"] members <|
      Settings.mk <$>
        Shape.member members "$schema" (Shape.optional (Shape.filled Shape.tooShort)) <*>
        Shape.member members "conversion" (Shape.optional ConversionSection.check) <*>
        Shape.member members "schema" (Shape.optional SchemaSection.check) <*>
        Shape.member members "logging" (Shape.optional LoggingSection.check)
  | j => Shape.wrongKind "object" j

/-- The JSON form of settings. -/
def toJson (s : Settings) : Json :=
  .object <|
    Json.optional "$schema" (s.reference.map .string) ++
      Json.optional "conversion" (s.conversion.map ConversionSection.toJson) ++
      Json.optional "schema" (s.schema.map SchemaSection.toJson) ++
      Json.optional "logging" (s.logging.map LoggingSection.toJson)

/-- The settings of a document in an environment. -/
def ofJson (env : Environment) (j : Json) : Except Failure Settings := do
  let expanded ← env.expand j
  (check expanded.settled).toExcept.mapError fun issues =>
    .settings (Issue.report "Invalid config file" issues)

/-- The settings of the content of a file at a path. -/
def ofText (env : Environment) (path content : String) : Except Failure Settings := do
  let j ← Document.parse s!"Config file {path}" content
  ofJson env j

/-- The options of the converters. -/
def options (s : Settings) : ConverterOptions :=
  { conversion := ⟨(s.conversion.bind (·.truncateTimestamps)).getD .reject⟩
    schema := ⟨(s.schema.bind (·.inferMaps)).getD false⟩ }

end Settings

end WarehouseRows
