import WarehouseRows.Row.Format
import WarehouseRows.Text.Base64
import WarehouseRows.Value.Text

/-!
# Texts of cells

The fixed formats, applied to values of any sort. A value of the sort that a format is
for has its text at once; an heir of such a value, or any other object with members of
the right names, has a text made from its parts. Instants and bytes are the exception:
what they hold is no part, so an heir of one cannot stand in for it.

## Main definitions

* `Cell.instantText`, `Cell.timeText`, `Cell.dateText`, `Cell.dateTimeText`,
  `Cell.singleText`, `Cell.bytesText`: the texts.
* `Cell.readInstant`, `Cell.readSeconds`, `Cell.readDateTime`: the formats read back from
  the text of a value.
-/

namespace WarehouseRows.Cell

/-! ## Writing -/

/-- The refusal of an operation of instants by a value that is none; a member may stand in
for the operation, or there may be no such operation. -/
def noInstant (operation : String) (refusal : Value → Failure) (value : Value) : Failure :=
  match value with
  | .null => Value.nothingToAsk "null" operation
  | .missing => Value.nothingToAsk "undefined" operation
  | v =>
    if v.isA .instant && (v.held? operation).isNone then refusal v
    else Operand.noFunction ("value." ++ operation)

/-- An instant in the fixed format. -/
def instantText (value : Value) : Except Failure String :=
  match value with
  | .instant t => (Timestamp.format t).mapError .conversion
  | v => .error (noInstant "getTime" (fun _ => Operand.noInstant) v)

/-- The text of a value: an instant as ISO text, any other value as its default
text. -/
def textOf (value : Value) : Except Failure String :=
  match value with
  | .instant t =>
    match t.isoText? with
    | some s => .ok s
    | none => .error (.range "Invalid time value")
  | v =>
    if v.isA .instant then
      .error (noInstant "toISOString" (Value.incompatible "Date.prototype.toISOString") v)
    else v.text

/-- The text that a value answers with when it is asked for its text by name. -/
def ownText (value : Value) : Except Failure String :=
  value.operand.spoken "value"

/-- A date. -/
def dateText (value : Value) : Except Failure String :=
  match value with
  | .date d => .ok d.text
  | v => ownText v

/-- A time with its seconds. -/
def timeText (value : Value) : Except Failure String :=
  match value with
  | .null => .error (Value.nothingToAsk "null" "hour")
  | .missing => .error (Value.nothingToAsk "undefined" "hour")
  | .time t => .ok t.format
  | v => LocalTime.formatOfParts v.parts

/-- A date and a time with its seconds. -/
def dateTimeText (value : Value) : Except Failure String :=
  match value with
  | .null => .error (Value.nothingToAsk "null" "date")
  | .missing => .error (Value.nothingToAsk "undefined" "date")
  | .dateTime x => .ok x.format
  | v => do
    let date ← (v.parts "date").spoken "value.date"
    let time ← timeText (v.member "time")
    pure (date ++ "T" ++ time)

/-- A decimal. -/
def decimalText (value : Value) : Except Failure String :=
  match value with
  | .decimal d => d.text
  | v => if v.isA .decimal then ownText v else textOf v

/-- A 32-bit number; any other value as its default text. -/
def singleText (value : Value) : Except Failure String :=
  match value with
  | .number x => .ok (Single.format x)
  | v => v.text

/-- Bytes in base64. An heir of bytes fails where the bytes are looked for. -/
def bytesText (value : Value) : Except Failure String :=
  match value with
  | .bytes content => .ok (Base64.encode content)
  | v => do
    for name in ["buffer", "byteOffset", "byteLength"] do
      let _ ← v.fieldOf name
    .error (Operand.refusal "The first argument must hold bytes")

/-! ## Reading -/

/-- The instant that the text of a value denotes. -/
def readInstant (value : Value) : Except Failure Value := do
  let text ← value.text
  ((Timestamp.parse text).map .instant).mapError .conversion

/-- The instant of the seconds that a text denotes. -/
def readSeconds (value : Value) : Except Failure Value :=
  match value with
  | .string text => ((Timestamp.parseEpochSeconds text).map .instant).mapError .conversion
  | _ => .error (Operand.noFunction "text.trim")

/-- The date and time that the text of a value denotes. -/
def readDateTime (value : Value) : Except Failure Value := do
  let text ← value.text
  ((LocalDateTime.parseFixed text).map .dateTime).mapError .conversion

end WarehouseRows.Cell
