import WarehouseRows.Text.Units
import WarehouseRows.Value.Basic

/-!
# What a value answers to a name

A value looks a name up among the members that it holds. An heir that lacks a name asks
its parent, and so on down to the end of the line; what no one in the line holds, the
archetypes behind the end are asked for. Lists, strings and bytes hold their parts under
the positions. Some members are hidden: they answer, but are not listed among the members
of the value.

An archetype answers on behalf of the value that was asked, not of the one whose
archetype it is. So an heir of a map has no size, and asking for it fails, since the heir
is no map itself. The reserved name asks for the parent.

## Main definitions

* `Value.ownMembers`, `Value.ownValues`: what a value holds and lists, in order.
* `Value.held?`: what a value or one of the parents in its line holds under a name.
* `Value.lineage`, `Value.isA`: the archetypes behind a value.
* `Value.parent`: what a value answers to the reserved name.
* `Value.member`: what a value answers to any name.
* `Value.fieldOf`: the same for the name of a field, where asking may fail.
* `Value.kindName`: the kind of a value in messages.
-/

namespace WarehouseRows

namespace Value

/-! ## What a value holds -/

/-- The units of a text, each as a text of its own. -/
def units (s : String) : List Value :=
  (Text.units s).map fun n => .string (Text.ofUnits [n])

/-- A count as a value. -/
def count (n : Nat) : Value :=
  .number (Double.ofNat n)

/-- A text that may be missing, as a value. -/
def ofText? : Option String → Value
  | some s => .string s
  | none => .missing

/-- The members that a conversion error lists; its cause comes last, if it has one. -/
def failureMembers (e : ConversionError) (cause : Option Value) : List (String × Value) :=
  [("code", .string e.code.name), ("field", ofText? e.field), ("fieldType", ofText? e.fieldType),
    ("valueType", ofText? e.valueType), ("suggestion", ofText? e.suggestion),
    ("context", (e.context.map ofJson).getD .missing), ("name", .string "ConversionError")] ++
    (cause.map fun v => ("cause", v)).toList

/-- The members that a value holds and lists, in order. -/
def ownMembers : Value → List (String × Value)
  | .record members => members
  | .heir members _ => members
  | .bare members => members
  | .list items => Members.numbered 0 items
  | .string s => Members.numbered 0 (units s)
  | .bytes bs => Members.numbered 0 (bs.map fun b => count b.toNat)
  | .decimal d => [("unscaled", .integer d.unscaled), ("scale", .number d.scale.toDouble)]
  | .date d =>
    [("year", .number d.parts.1), ("month", .number d.parts.2.1), ("day", .number d.parts.2.2)]
  | .time t =>
    [("hour", .number t.hour.toDouble), ("minute", .number t.minute.toDouble),
      ("second", .number t.second.toDouble), ("nano", .number t.nano.toDouble)]
  | .dateTime x => [("date", .date x.date), ("time", .time x.time)]
  | .error _ _ (some label) => [("name", .string label)]
  | .failure e cause => failureMembers e cause
  | _ => []

/-- The values that an object holds and lists, in order. -/
def ownValues (v : Value) : List Value :=
  v.ownMembers.map Prod.snd

/-- The text of an error. -/
def errorText (name message : String) : String :=
  if message.isEmpty then name else if name.isEmpty then message else name ++ ": " ++ message

/-- The name under which an error holds its trace. -/
def traceName : String := "stack"

/-- The members that a value holds without listing them. -/
def hiddenMembers : Value → List (String × Value)
  | .list items => [("length", count items.length)]
  | .string s => [("length", count (Text.unitCount s))]
  | .error maker message label =>
    [("message", .string message), (traceName, .string (errorText (label.getD maker) message))]
  | .failure e _ =>
    [("message", .string e.message), (traceName, .string (errorText "ConversionError" e.message))]
  | _ => []

/-- What a value, or one of the parents in its line, holds under a name. -/
def held? : Value → String → Option Value
  | .heir members p, name =>
    match Members.get? members name with
    | some v => some v
    | none => held? p name
  | v, name =>
    match Members.get? v.ownMembers name with
    | some x => some x
    | none => Members.get? v.hiddenMembers name

/-! ## Archetypes behind a value -/

/-- The archetypes that answer for what the line of a value does not hold, nearest
first. -/
def lineage (v : Value) : List Archetype :=
  match v.root with
  | .archetype k => k.lineage
  | r =>
    match r.archetype? with
    | some k => k.lineage
    | none => []

/-- Whether a value is one of a sort, itself or as an heir. -/
def isA (k : Archetype) : Value → Bool
  | .archetype j => j.ancestors.contains k
  | v => v.lineage.contains k

/-- Whether the most general archetype is behind a value. -/
def isRooted (v : Value) : Bool :=
  v.lineage.contains .object

/-- What a value answers to the reserved name. Nobody answers for an object that has
no archetype behind it; the archetype of lists is itself a list, an empty one. -/
def parent : Value → Value
  | .heir _ p => if p.isRooted then p else .missing
  | .list _ => .list []
  | .archetype .object => .null
  | v =>
    match v.archetype? with
    | some k => .archetype k
    | none => .missing

/-- The archetype whose text a value has; `none` when a member stands in for the
function that gives the text, or there is no such function. -/
def textOwner? (v : Value) : Option Archetype :=
  match v.held? "toString" with
  | some _ => none
  | none => v.lineage.find? fun k => k.functions.contains "toString"

/-! ## What archetypes answer -/

/-- What an object without a better text shows itself as. -/
def objectText (v : Value) : String :=
  let sort :=
    if v.lineage.contains .map then Archetype.map.maker
    else if v.lineage.contains .buffer then Archetype.buffer.maker
    else Archetype.object.maker
  "[object " ++ sort ++ "]"

/-- How a value shows itself when it is taken for a value of another sort. -/
def shown (v : Value) : String :=
  match v.textOwner?, v.held? Archetype.makerName, v.lineage with
  | some .object, none, k :: _ => "#<" ++ k.maker ++ ">"
  | _, _, _ => v.objectText

/-- The refusal of an operation on a value that is not of the sort itself. -/
def incompatible (operation : String) (v : Value) : Failure :=
  .other "TypeError" s!"Method {operation} called on incompatible receiver {v.shown}"

/-- What a value says of its size, its place and its state. -/
def readings : Value → List (String × Value)
  | .bytes bs =>
    [("length", count bs.length), ("byteLength", count bs.length), ("byteOffset", count 0),
      ("buffer", .buffer bs)]
  | .buffer bs =>
    [("byteLength", count bs.length), ("maxByteLength", count bs.length),
      ("resizable", .bool false), ("detached", .bool false)]
  | .map entries => [("size", count entries.length)]
  | _ => []

/-- Whether the code that an error has, if any, leaves hope for other input. -/
def recoverable (v : Value) : Bool :=
  match v.held? "code" with
  | some (.string code) => (ErrorCode.ofName code) != .unknownLogicalType
  | _ => true

/-- The constants that an archetype holds. -/
def constants : Archetype → List (String × Value)
  | .string => [("length", count 0)]
  | .bytes => [("BYTES_PER_ELEMENT", count 1)]
  | .error => [("name", .string "Error"), ("message", .string "")]
  | .typeError => [("name", .string "TypeError"), ("message", .string "")]
  | _ => []

/-- The name under which errors answer whether other input may succeed. -/
def recoverableName : String := "recoverable"

/-- What an archetype answers to a name on behalf of a value; `none` when it leaves the
answer to more general archetypes. -/
def answerOf (k : Archetype) (v : Value) (name : String) : Option (Except Failure Value) :=
  match k.function? name with
  | some f => some (.ok (.builtin f))
  | none =>
    match k.guarded.lookup name with
    | some operation =>
      some <| match v.readings.lookup name with
        | some x => .ok x
        | none => .error (v.incompatible ("get " ++ operation))
    | none =>
      if k = .failure ∧ name = recoverableName then some (.ok (.bool v.recoverable))
      else if k = .object ∧ name = Members.reservedName then some (.ok v.parent)
      else (Members.get? (constants k) name).map .ok

/-! ## Look-up -/

/-- What a value answers to a name, which may be a refusal; `none` when nobody in its
line answers. -/
def answer? (v : Value) (name : String) : Option (Except Failure Value) :=
  match v.held? name with
  | some x => some (.ok x)
  | none => v.lineage.findSome? fun k => v.answerOf k name

/-- What a value answers to a name. -/
def member (v : Value) (name : String) : Value :=
  match v.answer? name with
  | some (.ok x) => x
  | _ => .missing

/-- The refusal to look for a name in an absent value, which shows as `shown`. -/
def nothingToAsk (shown name : String) : Failure :=
  .other "TypeError" s!"Cannot read properties of {shown} (reading '{name}')"

/-- What a value answers to the name of a field. -/
def fieldOf (name : String) : Value → Except Failure Value
  | .null => .error (nothingToAsk "null" name)
  | .missing => .error (nothingToAsk "undefined" name)
  | v => (v.answer? name).getD (.ok .missing)

/-! ## Kinds -/

/-- The name of the maker that a parent gives its heirs. -/
def makerOf (parent : Value) : String :=
  match parent.member Archetype.makerName with
  | .builtin name => name
  | _ => "object"

/-- The kind of a value in messages. -/
def kindName : Value → String
  | .null => "null"
  | .missing => "undefined"
  | .bool _ => "boolean"
  | .number _ => "number"
  | .integer _ => "bigint"
  | .string _ => "string"
  | .bytes _ => "Uint8Array"
  | .buffer _ => "ArrayBuffer"
  | .instant _ => "Date"
  | .decimal _ => "Decimal"
  | .date _ => "LocalDate"
  | .time _ => "LocalTime"
  | .dateTime _ => "LocalDateTime"
  | .list _ => "array"
  | .map _ => "Map"
  | .record _ => "Object"
  | .heir _ p => if p.lineage.contains .bytes then "Uint8Array" else makerOf p
  | .bare _ => "object"
  | .archetype k => (k.ancestors.head?.map Archetype.maker).getD "object"
  | .error maker _ _ => maker
  | .failure .. => "ConversionError"
  | .builtin _ => "function"

end Value

end WarehouseRows
