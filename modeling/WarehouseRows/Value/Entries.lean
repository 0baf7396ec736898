import WarehouseRows.Schema.Describe
import WarehouseRows.Value.Text

/-!
# Map entries

The entries of a map keep the order in which they were stored. Two keys are the
same key when they are the same scalar: `nan` is the same as itself, and a zero is
stored without its sign. Keys that are objects are each a key of their own.

## Main definitions

* `Value.sameKey`, `Value.asKey`: how keys compare and how they are stored.
* `Value.readEntries`: the entries of a list of raw entries, in which no key may
  occur twice.
-/

namespace WarehouseRows.Value

/-- Whether two values are the same key. -/
def sameKey : Value → Value → Bool
  | .null, .null => true
  | .missing, .missing => true
  | .bool a, .bool b => a == b
  | .number a, .number b => (a.isNaN && b.isNaN) || a.equal b
  | .integer a, .integer b => a == b
  | .string a, .string b => a == b
  | _, _ => false

/-- The form in which a key is stored. -/
def asKey : Value → Value
  | .number x => .number (if x.isZero then Double.zero else x)
  | v => v

/-- Whether entries hold a key. -/
def hasKey (entries : List (Value × Value)) (key : Value) : Bool :=
  entries.any fun e => e.1.sameKey key

/-- The entries with a value stored under a key, at the place of the key if it is
there already. -/
def storeEntry (entries : List (Value × Value)) (key value : Value) : List (Value × Value) :=
  if hasKey entries key then
    entries.map fun e => if e.1.sameKey key then (e.1, value) else e
  else entries ++ [(key.asKey, value)]

/-- The refusal of a key that occurs twice in a map of a type. -/
def duplicateKey (type : FieldType) (key : Value) : Failure :=
  match key.text with
  | .ok text =>
    .conversion
      { code := .invalidValue
        message := s!"Duplicate map key \"{text}\""
        fieldType := some type.describe
        valueType := some key.kindName }
  | .error f => f

/-- The entries that raw entries give. Each is split into its raw key and raw value,
the key is read and has to be new, and then the value is read. -/
def readEntries (split : Value → Except Failure (Value × Value))
    (readKey readValue : Value → Except Failure Value)
    (duplicate : Value → Failure) (entries : List (Value × Value)) :
    List Value → Except Failure (List (Value × Value))
  | [] => .ok entries
  | item :: rest => do
    let (rawKey, rawValue) ← split item
    let key ← readKey rawKey
    if hasKey entries key then .error (duplicate key)
    else
      let value ← readValue rawValue
      readEntries split readKey readValue duplicate (storeEntry entries key value) rest

end WarehouseRows.Value
