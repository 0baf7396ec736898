import WarehouseRows.Schema.Basic
import WarehouseRows.Value.Assembly

/-!
# Rows and records

A row lists its values by position, a record names them. Passing from one to the
other goes by the field names of a schema and leaves nested rows as they are. Values
of other kinds can be read as rows and as records too, by the names they answer to.

## Main definitions

* `Row.toRecord`: the values of a row under the names of its fields.
* `Row.ofRecord`: the values of a record in the order of a schema.
* `Row.ofValue`: the row that a value stands for.
* `Value.fieldNames`: the names that occur in records.
* `Value.raised`, `Value.raisedIn`: a conversion error with its cause, and the same seen
  from an enclosing field.
* `Value.toConversionError`: anything that was raised, as a conversion error.
-/

namespace WarehouseRows

namespace Row

/-- The refusal of a row of a width that is not that of its schema. -/
def refusal (width : String) (schema : Schema) : ConversionError :=
  { code := .schemaMismatch
    message := s!"Row has {width} values but the schema has {schema.length} fields" }

/-- The refusal of a row whose width is not that of its schema. -/
def widthError (row : Row) (schema : Schema) : ConversionError :=
  refusal (toString row.length) schema

/-- The values of a row under the names of its fields. -/
def toRecord (schema : Schema) (row : Row) : Except Failure Value :=
  if row.length = schema.length then Value.assemble ((schema.map fun f => f.name).zip row)
  else .error (.conversion (widthError row schema))

/-- The values of a record in the order of a schema; a missing one is `null`, and
names that the schema does not know are left out. -/
def ofRecord (schema : Schema) (record : Value) : Except Failure Row :=
  schema.mapM fun f => (record.fieldOf f.name).map Value.orNull

/-- The name under which a value holds its width. -/
def widthName : String := "length"

/-- The row that a value stands for: the items of a list, or else the values under
the positions, if the value says that it is as wide as the schema. -/
def ofValue (schema : Schema) (v : Value) : Except Failure Row :=
  match v with
  | .list items => .ok items
  | v => do
    let width ← v.fieldOf widthName
    let fits := match width with
      | .number x => x.equal (Double.ofNat schema.length)
      | _ => false
    if fits then pure ((List.range schema.length).map fun i => v.member (Nat.repr i))
    else
      let text ← width.text
      .error (.conversion (refusal text schema))

end Row

namespace Value

/-- The names of the members that a value lists; an absent value has none to list. -/
def ownNames (v : Value) : Except Failure (List String) :=
  if v.isAbsent then .error (.other "TypeError" "Cannot convert undefined or null to object")
  else .ok (v.ownMembers.map Prod.fst)

/-- The names that occur in records, each once, in the order of first occurrence. -/
def fieldNames (records : List Value) : Except Failure (List String) :=
  (records.mapM ownNames).map fun names =>
    names.flatten.foldl (fun seen name => if seen.contains name then seen else seen ++ [name]) []

/-- A conversion error with its cause; what counts as nothing is no cause. -/
def raised (e : ConversionError) (cause : Value) : Value :=
  .failure e (if cause.isNothing then none else some cause)

/-- A conversion error with its cause, seen from an enclosing field: what is seen there is
caused by the error as it was. -/
def raisedIn (name : String) (e : ConversionError) (cause : Option Value) : Value :=
  .failure (e.withField name) (some (.failure e cause))

/-- Anything that was raised, as a conversion error: one that is a conversion error already
stays as it is, an error of another kind lends its message and becomes the cause, and any
other value becomes the message as text. -/
def toConversionError (code : ErrorCode) (v : Value) : Except Failure Value :=
  if v.isA .failure then .ok v
  else if v.isA .error then do
    let message ← match v.member "message" with
      | .missing => pure ""
      | m => m.text
    pure (raised { code := code, message := message } v)
  else v.text.map fun message => raised { code := code, message := message } .missing

/-- A failure as the value that logs show. -/
def ofFailure : Failure → Value
  | .conversion e => .failure e none
  | f => .error f.name f.message none

end Value

end WarehouseRows
