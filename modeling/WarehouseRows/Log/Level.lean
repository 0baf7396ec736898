/-!
# Levels and formats of a log

## Main definitions

* `LogLevel`: how serious a log line is.
* `LogLevel.admits`: whether a log of one level takes lines of another.
* `LogFormat`: how a log line is written.
-/

namespace WarehouseRows

/-- How serious a log line is. -/
inductive LogLevel where
  | debug
  | info
  | warn
  | error
  deriving DecidableEq, Repr, Inhabited

namespace LogLevel

/-- The rank of a level; a more serious level ranks higher. -/
def rank : LogLevel → Nat
  | .debug => 10
  | .info => 20
  | .warn => 30
  | .error => 40

/-- Whether a log with a threshold takes lines of a level. -/
def admits (threshold level : LogLevel) : Bool :=
  threshold.rank ≤ level.rank

/-- The levels and their written forms. -/
def words : List (String × LogLevel) :=
  [("debug", .debug), ("info", .info), ("warn", .warn), ("error", .error)]

/-- The written form of a level. -/
def name : LogLevel → String
  | .debug => "debug"
  | .info => "info"
  | .warn => "warn"
  | .error => "error"

/-- The form of a level in a line of plain text. -/
def label : LogLevel → String
  | .debug => "DEBUG"
  | .info => "INFO"
  | .warn => "WARN"
  | .error => "ERROR"

end LogLevel

/-- How a log line is written. -/
inductive LogFormat where
  | text
  | json
  deriving DecidableEq, Repr, Inhabited

namespace LogFormat

/-- The formats and their written forms. -/
def words : List (String × LogFormat) :=
  [("text", .text), ("json", .json)]

/-- The written form of a format. -/
def name : LogFormat → String
  | .text => "text"
  | .json => "json"

end LogFormat

end WarehouseRows
