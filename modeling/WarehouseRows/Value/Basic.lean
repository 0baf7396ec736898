import WarehouseRows.Calendar.LocalDateTime
import WarehouseRows.Decimal
import WarehouseRows.Error.Failure
import WarehouseRows.Value.Archetype

/-!
# Values

One type holds every value that converters exchange: the values of canonical rows,
the values that an Avro reader delivers, the cells of a table row, and what log
lines carry. Which of them may stand at a place is decided by the declared type of
the place and not by this type.

An object without further qualities is a `record`. Like every other value it answers
to the names that its archetype holds; an `heir` has another object for a parent and
answers to the names of that one; an object that is `bare` answers to its own names
only. An archetype is an object too. An error may go by a name of its own, and a
conversion error may hold its cause, which can be any value.

## Main definitions

* `Value`: a value.
* `Value.archetype?`, `Value.root`: the archetype of a value, and the end of its line
  of parents.
* `Value.isAbsent`, `Value.isObject`: the two sorts of values that readers tell apart.
* `Value.isNothing`: the values that count as nothing.
* `Value.ofJson`: a JSON value as a value.
-/

namespace WarehouseRows

/-- A value. -/
inductive Value where
  | null
  | missing
  | bool (value : Bool)
  | number (value : Double)
  | integer (value : Int)
  | string (value : String)
  | bytes (value : List UInt8)
  | buffer (value : List UInt8)
  | instant (value : Instant)
  | decimal (value : Decimal)
  | date (value : LocalDate)
  | time (value : LocalTime)
  | dateTime (value : LocalDateTime)
  | list (items : List Value)
  | map (entries : List (Value × Value))
  | record (members : List (String × Value))
  | heir (members : List (String × Value)) (parent : Value)
  | bare (members : List (String × Value))
  | archetype (kind : Archetype)
  | error (maker message : String) (label : Option String)
  | failure (error : ConversionError) (cause : Option Value)
  /-- A function, by its own name. -/
  | builtin (name : String)
  deriving Inhabited

namespace Value

/-- The archetype of a value; absent values, functions and objects with a parent of
their own have none. -/
def archetype? : Value → Option Archetype
  | .null | .missing | .bare _ | .heir .. | .builtin _ => none
  | .bool _ => some .bool
  | .number _ => some .number
  | .integer _ => some .integer
  | .string _ => some .string
  | .bytes _ => some .bytes
  | .buffer _ => some .buffer
  | .instant _ => some .instant
  | .decimal _ => some .decimal
  | .date _ => some .date
  | .time _ => some .time
  | .dateTime _ => some .dateTime
  | .list _ => some .list
  | .map _ => some .map
  | .record _ => some .object
  | .archetype k => k.ancestors.head?
  | .error maker _ _ => some (if maker = Archetype.typeError.maker then .typeError else .error)
  | .failure .. => some .failure

/-- Whether a value is absent: `null` or missing. -/
def isAbsent : Value → Bool
  | .null => true
  | .missing => true
  | _ => false

/-- Whether a value counts as nothing: an absent value, `false`, a zero, `nan`, an empty
text. -/
def isNothing : Value → Bool
  | .null | .missing => true
  | .bool b => !b
  | .number x => x.isZero || x.isNaN
  | .integer n => n == 0
  | .string s => s.isEmpty
  | _ => false

/-- The value at the end of the line of parents: the value itself, unless it is an
heir. -/
def root : Value → Value
  | .heir _ parent => root parent
  | v => v

/-- Whether a value is an object that is no list; the members of such a value can be
looked into. -/
def isObject : Value → Bool
  | .bytes _ | .buffer _ | .instant _ | .decimal _ | .date _ | .time _ | .dateTime _ | .map _
  | .record _ | .heir .. | .bare _ | .archetype _ | .error .. | .failure .. => true
  | _ => false

/-- Whether a value is a container of bytes, or an heir of one. -/
def holdsBytes (v : Value) : Bool :=
  match v.root with
  | .bytes _ | .buffer _ => true
  | _ => false

/-- The value, or `null` in place of an absent one. -/
def orNull : Value → Value
  | .missing => .null
  | v => v

/-- A JSON value as a value. -/
def ofJson : Json → Value
  | .null => .null
  | .bool b => .bool b
  | .number x => .number x
  | .string s => .string s
  | .array items => .list (ofItems items)
  | .object members => .record (ofMembers members)
where
  /-- The items of an array as values. -/
  ofItems : List Json → List Value
    | [] => []
    | item :: rest => ofJson item :: ofItems rest
  /-- The members of an object as values. -/
  ofMembers : List (String × Json) → List (String × Value)
    | [] => []
    | (name, value) :: rest => (name, ofJson value) :: ofMembers rest

end Value

/-- A row: one value per field of a schema, in order. -/
abbrev Row := List Value

end WarehouseRows
