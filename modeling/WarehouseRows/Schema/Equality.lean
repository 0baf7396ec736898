import WarehouseRows.Schema.Basic

/-!
# Structural equality of schemas

Two schemas are the same when they have the same fields in the same order, with
equal names, types, nullability and descriptions; a missing description equals an
empty one. Enumeration labels are compared as one text, with a NUL between labels.

## Main definitions

* `FieldType.same`, `Schema.same`: the comparisons.
-/

namespace WarehouseRows

namespace FieldType

/-- The labels of an enumeration as one text. -/
def joinedLabels (labels : Option (List String)) : String :=
  "\x00".intercalate (labels.getD [])

mutual

/-- Whether two types are the same. -/
def same : FieldType → FieldType → Bool
  | .primitive a, .primitive b => a == b
  | .array a aNullable, .array b bNullable => aNullable == bNullable && same a b
  | .map aKey aValue aNullable, .map bKey bValue bNullable =>
    aNullable == bNullable && same aKey bKey && same aValue bValue
  | .row a, .row b => sameFields a b
  | .logical aId aBase aRepr aLabels, .logical bId bBase bRepr bLabels =>
    aId == bId && aRepr.name == bRepr.name && same aBase bBase &&
      joinedLabels aLabels == joinedLabels bLabels
  | .unknown a, .unknown b => a == b
  | _, _ => false

/-- Whether two lists of fields are the same. -/
def sameFields : List Field → List Field → Bool
  | [], [] => true
  | a :: as, b :: bs =>
    (a.name == b.name && a.nullable == b.nullable &&
      a.description.getD "" == b.description.getD "" && same a.type b.type) && sameFields as bs
  | _, _ => false

end

end FieldType

/-- Whether two schemas are the same. -/
def Schema.same (a b : Schema) : Bool :=
  FieldType.sameFields a b

end WarehouseRows
