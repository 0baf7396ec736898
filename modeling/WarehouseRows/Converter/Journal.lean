import WarehouseRows.Converter.Request
import WarehouseRows.Log.Logger
import WarehouseRows.Value.Record

/-!
# The journal of a converter

Every request leaves one line in a journal: at the level `debug` when it succeeds, at
the level `warn` when it fails. The line names the operation, says how long it took
and sums up the arguments; for a conversion error it adds the code and the field. The
answer is the same as without a journal.

## Main definitions

* `Journal`: a logger with a reading of the clock.
* `Journal.note`: the outcome of a request, with the lines that it leaves.
* `Journal.answer`: the answer to a request, with the lines that it leaves.
-/

namespace WarehouseRows

/-- A logger with a reading of the clock. -/
structure Journal where
  logger : Logger := {}
  /-- The time that lines show. -/
  time : String
  /-- The milliseconds that a request takes. -/
  elapsed : Nat := 0
  deriving Inhabited

namespace Journal

/-- The lines that a logger writes for one event. -/
def lines (journal : Journal) (level : LogLevel) (message : String) (fields : Members Value) :
    Except Failure (List String) :=
  (journal.logger.line? journal.time level message fields).map Option.toList

/-- What every line of a request says. -/
def fields (journal : Journal) (request : Request) : Except Failure (Members Value) :=
  request.summary.map fun summary =>
    [("operation", .string request.operation), Request.counted "durationMs" journal.elapsed] ++
      summary

/-- What the line of a failed request adds. -/
def failureFields (failure : Failure) : Members Value :=
  match failure with
  | .conversion e =>
    [("code", .string e.code.name), ("field", Value.ofText? e.field),
      ("recoverable", .bool e.recoverable), ("error", .failure e none)]
  | f => [("error", Value.ofFailure f)]

/-- A failed request with the lines that it leaves. -/
def refuse {α : Type} (journal : Journal) (request : Request) (failure : Failure) :
    Except Failure α × List String :=
  match (journal.fields request).bind fun fields =>
    journal.lines .warn "Converter call failed" (fields ++ failureFields failure) with
  | .ok lines => (.error failure, lines)
  | .error unloggable => (.error unloggable, [])

/-- The outcome of a request, with the lines that it leaves. A line that cannot be
written counts as a failure of the request. -/
def note (journal : Journal) (request : Request) (outcome : Except Failure request.Answer) :
    Except Failure request.Answer × List String :=
  match outcome with
  | .ok answer =>
    match (journal.fields request).bind (journal.lines .debug "Converter call succeeded") with
    | .ok lines => (.ok answer, lines)
    | .error unloggable => journal.refuse request unloggable
  | .error failure => journal.refuse request failure

/-- The answer to a request, with the lines that it leaves. -/
def answer (journal : Journal) (options : ConverterOptions) (request : Request) :
    Except Failure request.Answer × List String :=
  journal.note request (request.answer options)

end Journal

end WarehouseRows
