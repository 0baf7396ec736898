import WarehouseRows.Error.Conversion
import WarehouseRows.Fingerprint.Murmur3
import WarehouseRows.Json.Basic
import WarehouseRows.Table.Column
import WarehouseRows.Text.LetterCase

/-!
# Message descriptors and their fingerprint

A table schema determines a message descriptor: each column becomes a field with
its name in small letters, a message type and a label, and a struct becomes a
nested message. The fingerprint of a descriptor is the sum of the hashes of its
parts, in 64 bits, so the order of the fields does not matter.

Running pipelines carry the fingerprint in their messages, so it has to stay the
same for ever.

## Main definitions

* `Descriptor`: a message descriptor.
* `TableSchema.descriptor`: the descriptor of a table schema.
* `Descriptor.fingerprint`: the fingerprint.
-/

namespace WarehouseRows

/-- How often a message field occurs. -/
inductive Label where
  | optional
  | required
  | repeated
  deriving DecidableEq, Repr, Inhabited

namespace Label

/-- The written form of a label. -/
def name : Label → String
  | .optional => "OPTIONAL"
  | .required => "REQUIRED"
  | .repeated => "REPEATED"

/-- The label with a written form; any other text counts as optional. -/
def ofName (name : String) : Label :=
  if name = "REQUIRED" then .required else if name = "REPEATED" then .repeated else .optional

end Label

/-- A field of a message. -/
structure MessageField where
  name : String
  /-- The name of the message type of the field. -/
  type : String
  label : Label
  /-- The fields of a nested message. -/
  message : Option (List MessageField) := none
  deriving Repr, Inhabited

/-- The fields of a message, in order. -/
abbrev Descriptor := List MessageField

namespace MessageField

/-! ## Message types -/

/-- The names of the message types, in the order that numbers them. -/
def typeOrder : List String :=
  ["DOUBLE", "FLOAT", "INT64", "UINT64", "INT32", "FIXED64", "FIXED32", "BOOL", "STRING", "GROUP",
    "MESSAGE", "BYTES", "UINT32", "ENUM", "SFIXED32", "SFIXED64", "SINT32", "SINT64"]

/-- The number of a message type; `-1` for a name that is none. -/
def ordinal (type : String) : Int :=
  match typeOrder.idxOf? type with
  | some i => i
  | none => -1

/-- The message types of the type keywords. -/
def typeOfKeyword : List (String × String) :=
  [("INT64", "INT64"), ("INTEGER", "INT64"), ("FLOAT64", "DOUBLE"), ("FLOAT", "DOUBLE"),
    ("BOOL", "BOOL"), ("BOOLEAN", "BOOL"), ("STRING", "STRING"), ("BYTES", "BYTES"),
    ("NUMERIC", "BYTES"), ("BIGNUMERIC", "BYTES"), ("TIMESTAMP", "INT64"), ("DATE", "INT32"),
    ("TIME", "INT64"), ("DATETIME", "INT64"), ("GEOGRAPHY", "STRING"), ("JSON", "STRING"),
    ("STRUCT", "MESSAGE"), ("RECORD", "MESSAGE")]

/-! ## Fingerprint -/

/-- An integer reduced to 64 bits, with its sign. -/
def wrap64 (n : Int) : Int :=
  Int.bmod n (Nat.pow 2 64)

/-- The hashes of a name, of the two label flags and of a type. -/
def ownWeight (name type : String) (label : Label) : Int :=
  Murmur3.hashText name + Murmur3.hashInt (if label = .repeated then 1 else 0) +
    Murmur3.hashInt (if label = .required then 1 else 0) + Murmur3.hashInt (ordinal type)

mutual

/-- The sum of the hashes of a field, its nested message included. -/
def weight : MessageField → Int
  | ⟨name, type, label, some message⟩ =>
    ownWeight name type label + (if type = "MESSAGE" then total 0 message else 0)
  | ⟨name, type, label, none⟩ => ownWeight name type label

/-- The sum over fields, added to a start and reduced to 64 bits after each. -/
def total (start : Int) : List MessageField → Int
  | [] => start
  | f :: rest => total (wrap64 (start + weight f)) rest

end

mutual

/-- The JSON form of a field. -/
def toJson : MessageField → Json
  | ⟨name, type, label, some message⟩ =>
    .object [("name", .string name), ("type", .string type), ("label", .string label.name),
      ("messageType", .object [("fields", .array (toJsons message))])]
  | ⟨name, type, label, none⟩ =>
    .object [("name", .string name), ("type", .string type), ("label", .string label.name)]

/-- The JSON forms of fields. -/
def toJsons : List MessageField → List Json
  | [] => []
  | f :: rest => toJson f :: toJsons rest

end

end MessageField

namespace Descriptor

/-- The fingerprint of a descriptor, a signed 64-bit integer. -/
def fingerprint (descriptor : Descriptor) : Int :=
  MessageField.total 0 descriptor

/-- The JSON form of a descriptor. -/
def toJson (descriptor : Descriptor) : Json :=
  .object [("fields", .array (MessageField.toJsons descriptor))]

end Descriptor

/-! ## The descriptor of a table schema -/

namespace Column

/-- The label of a column. -/
def label (c : Column) : Label :=
  match c.mode with
  | some .required => .required
  | some .repeated => .repeated
  | _ => .optional

/-- The refusal of a column whose keyword has no message type. -/
def noMessageType (name : String) (keyword : Option String) : ConversionError :=
  { code := .unsupportedType
    message := s!"BigQuery type {shownKeyword keyword} has no storage write representation"
    field := some name
    fieldType := keyword }

mutual

/-- The message field of a column. -/
def messageField : Column → Except ConversionError MessageField
  | ⟨name, keyword, mode, some fields, description⟩ =>
    match lookUp MessageField.typeOfKeyword keyword with
    | none => .error (noMessageType name keyword)
    | some type =>
      let field : MessageField :=
        ⟨Text.toLower name, type, label ⟨name, keyword, mode, none, description⟩, none⟩
      if type = "MESSAGE" then
        match messageFields fields with
        | .ok message => .ok { field with message := some message }
        | .error e => .error (e.withField name)
      else .ok field
  | ⟨name, keyword, mode, none, description⟩ =>
    match lookUp MessageField.typeOfKeyword keyword with
    | none => .error (noMessageType name keyword)
    | some type =>
      .ok ⟨Text.toLower name, type, label ⟨name, keyword, mode, none, description⟩,
        if type = "MESSAGE" then some [] else none⟩

/-- The message fields of columns. -/
def messageFields : List Column → Except ConversionError (List MessageField)
  | [] => .ok []
  | c :: rest => do
    let field ← messageField c
    let fields ← messageFields rest
    pure (field :: fields)

end

end Column

/-- The descriptor of a table schema. -/
def TableSchema.descriptor (columns : TableSchema) : Except ConversionError Descriptor :=
  Column.messageFields columns

end WarehouseRows
