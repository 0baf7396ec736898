import WarehouseRows.Converter.Journal

/-!
# Calls one after another

A responder answers one call after another, and its answer may depend on what it remembers of
those before. The converter of given options is one that remembers nothing. With a journal, a
responder is a responder again, which also remembers the lines that were written.

## Main definitions

* `Call`: a request with a reading of the clock.
* `Responder`: what answers calls.
* `Responder.ofOptions`: the converter of given options.
* `Responder.journaled`: a responder with a journal.
* `Responder.answers`: the outcomes of calls that are made one after another.
-/

namespace WarehouseRows

/-- A request with a reading of the clock. -/
structure Call where
  request : Request
  /-- The time that the line of the call shows. -/
  time : String
  /-- The milliseconds that the call takes. -/
  elapsed : Nat := 0

/-- The journal of a call. -/
def Call.journal (call : Call) (logger : Logger) : Journal :=
  { logger := logger, time := call.time, elapsed := call.elapsed }

/-- A call with its outcome. -/
structure AnsweredCall where
  call : Call
  outcome : Except Failure call.request.Answer

/-- What answers calls; it may remember something from one call to the next. -/
abbrev Responder (σ : Type) :=
  (call : Call) → σ → Except Failure call.request.Answer × σ

namespace Responder

variable {σ : Type}

/-- The converter of given options. -/
def ofOptions (options : ConverterOptions) : Responder Unit :=
  fun call s => (call.request.answer options, s)

/-- The responder with a journal; the lines that a call leaves go behind those before. -/
def journaled (responder : Responder σ) (logger : Logger) : Responder (σ × List String) :=
  fun call (s, log) =>
    let (outcome, s) := responder call s
    let (outcome, lines) := (call.journal logger).note call.request outcome
    (outcome, s, log ++ lines)

/-- The outcomes of calls that are made one after another, and what is remembered of them. -/
def answers (responder : Responder σ) : List Call → σ → List AnsweredCall × σ
  | [], s => ([], s)
  | call :: calls, s =>
    let (outcome, s) := responder call s
    let (answered, s) := answers responder calls s
    (⟨call, outcome⟩ :: answered, s)

end Responder

end WarehouseRows
