import WarehouseRows.Json.Writer
import WarehouseRows.Log.Level
import WarehouseRows.Log.Redaction

/-!
# Loggers

A logger writes lines of at least its own level. A line has a time, a level, a
message and further fields, all redacted. In the JSON format every field is a member
of the line, and a field may even replace one of the first three; in the text format
only the identifier of the run shows.

A child of a logger adds fields to every line. The fields of a line itself win over
those of the logger, and the fields of a child over those of its parent, each at the
place where the name came first.

## Main definitions

* `Logger`: a logger.
* `Logger.child`: the logger with more fields.
* `Logger.line?`: the line that a logger writes, if it writes one.
-/

namespace WarehouseRows

/-- A logger. -/
structure Logger where
  level : LogLevel := .info
  format : LogFormat := .text
  /-- The fields of every line. -/
  fields : Members Value := []
  /-- The trace of an error; an empty one is none. -/
  traceOf : Value → String := fun _ => ""
  deriving Inhabited

namespace Logger

/-- The logger with more fields. -/
def child (logger : Logger) (fields : Members Value) : Logger :=
  { logger with fields := Members.ofPairs (logger.fields ++ fields) }

/-- The name of the field that identifies a run. -/
def runField : String := "runId"

/-- A line in the JSON format. -/
def jsonLine (time : String) (level : LogLevel) (message : String) (fields : Value) :
    Except Failure String :=
  let first : Members Value :=
    [("ts", .string time), ("level", .string level.name), ("msg", .string message)]
  (Value.record (Members.ofPairs (first ++ fields.ownMembers))).toJson.map fun form =>
    (form.getD .null).compact

/-- A line in the text format. -/
def textLine (time : String) (level : LogLevel) (message : String) (fields : Value) : String :=
  let run := match fields.member runField with
    | .string id => s!" run={id}"
    | _ => ""
  s!"[{time}] {level.label}{run} {message}"

/-- The line that a logger writes, if it writes one. -/
def line? (logger : Logger) (time : String) (level : LogLevel) (message : String)
    (fields : Members Value) : Except Failure (Option String) :=
  if logger.level.admits level then do
    let safe ← Redaction.record (Members.ofPairs (logger.fields ++ fields)) logger.traceOf
    let message := Redaction.text message
    match logger.format with
    | .json => (jsonLine time level message safe).map some
    | .text => pure (some (textLine time level message safe))
  else pure none

end Logger

end WarehouseRows
