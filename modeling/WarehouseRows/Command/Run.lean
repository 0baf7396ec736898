import WarehouseRows.Command.Arguments
import WarehouseRows.Command.Basic
import WarehouseRows.Settings.File

/-!
# Running a command line

A run reads its arguments, its settings and its input, performs the command, and ends
with an exit code. The answer goes to the output; log lines and failures go to the
errors. A run that fails writes no output.

## Main definitions

* `Surroundings`: what a run finds around it.
* `Outcome`: what a run leaves.
* `run`: the run of a command line.
-/

namespace WarehouseRows

/-- What a run finds around it. -/
structure Surroundings where
  /-- The content of a file. -/
  contentOf : String → Except Failure String
  vars : Members String := []
  /-- The time that log lines show. -/
  time : String
  /-- The milliseconds that the conversion takes. -/
  elapsed : Nat := 0
  /-- The identifier of the run in log lines. -/
  runId : String
  /-- The trace of an error; an empty one is none. -/
  traceOf : Value → String := fun _ => ""

/-- What a run leaves. -/
structure Outcome where
  code : Nat
  output : List String := []
  errors : List String := []
  deriving DecidableEq, Repr, Inhabited

/-- The text that explains the command line. -/
def usage : String :=
  "\n".intercalate
    ["Usage: rowbridge <command> <file> [--config <config.json>]",
      "",
      "Commands:",
      "  schema <table-schema.json>        Print the canonical schema of a BigQuery table schema",
      "  table-schema <schema.json>        Print the BigQuery table schema of a canonical schema",
      "  fingerprint <table-schema.json>   Print the storage write fingerprint of a table schema",
      "  avro-schema <table-schema.json>   Print the Avro export schema (--name, --namespace)"]

namespace Surroundings

/-- The document in a file. -/
def document (s : Surroundings) (path : String) : Except Failure Json := do
  let content ← s.contentOf path
  Document.parse path content

/-- The settings in a file, or none of them without a file. -/
def settings (s : Surroundings) : Option String → Except Failure Settings
  | none => .ok {}
  | some path => do
    let j ← s.document path
    Settings.ofJson { vars := s.vars } j

/-- The journal of a run. -/
def journal (s : Surroundings) (logger : Logger) : Journal :=
  { logger := { logger with traceOf := s.traceOf }, time := s.time, elapsed := s.elapsed }

/-- The logger of a command under settings. -/
def logger (s : Surroundings) (settings : Settings) (command : String) : Logger :=
  let base : Logger :=
    { level := (settings.logging.bind (·.level)).getD .info
      format := (settings.logging.bind (·.format)).getD .text }
  base.child [(Logger.runField, .string s.runId), ("command", .string command)]

/-- What a failure writes to the errors: what its user can act on, or a log line. -/
def report (s : Surroundings) (logger : Logger) : Failure → List String
  | .conversion e => [e.actionableMessage]
  | .shape issues => [Issue.report "Invalid schema" issues]
  | .settings message => [message]
  | f =>
    ((s.journal logger).lines .error "Command failed" [("error", Value.ofFailure f)]).toOption.getD
      []

end Surroundings

/-- A run that fails. -/
def Outcome.failed (errors : List String) : Outcome :=
  { code := 1, errors := errors }

/-- The run of a command that reads its input. -/
def runCommand (s : Surroundings) (logger : Logger) (options : ConverterOptions)
    (command : Command) (input : String) : Outcome :=
  match s.document input with
  | .error failure => .failed (s.report logger failure)
  | .ok j =>
    match command.perform (s.journal logger) options j with
    | (.ok text, lines) => { code := 0, output := [text], errors := lines }
    | (.error failure, lines) => .failed (lines ++ s.report logger failure)

/-- The run of a command line. -/
def run (s : Surroundings) (words : List String) : Outcome :=
  if Arguments.asksForHelp words then { code := 0, output := [usage] }
  else
    match Arguments.read words with
    | .error failure => .failed (s.report {} failure)
    | .ok none => .failed [usage]
    | .ok (some arguments) =>
      match s.settings arguments.config with
      | .error failure => .failed (s.report {} failure)
      | .ok settings =>
        match Command.ofName? arguments.command arguments.name arguments.space with
        | none => .failed [s!"Unknown command: {arguments.command}", usage]
        | some command =>
          runCommand s (s.logger settings arguments.command) settings.options command
            arguments.input

end WarehouseRows
