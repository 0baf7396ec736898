import WarehouseRows.Converter.Session
import WarehouseRows.Proofs.Digits
import WarehouseRows.Proofs.LogLines

/-!
# A journal changes nothing but the log

With a journal, a responder gives the outcomes that it gives without one, whatever it answers and
remembers, and whichever way it fails. Everything that a line says of a request and of a failure is
shown, so that a line is never missing where the logger takes its level, and never fails the call.
The log of a session holds the lines of its calls, one after another: one for each failure unless
the logger takes errors only, one for each success if it takes everything, and no others.

## Main definitions

* `Request.IsDeclared`: the requests whose arguments are of the declared sorts.
* `AnsweredCall.Leaves`: the lines that a call with its outcome leaves.
-/

namespace WarehouseRows

/-! ## What lines say of requests -/

/-- Items that are numbered go by digits. -/
theorem Members.isDigit_of_mem_names {α : Type} {items : List α} {i : Nat} {name : String}
    (h : name ∈ names (numbered i items)) : ∀ c ∈ name.toList, c.isDigit = true := by
  induction items generalizing i with
  | nil => exact absurd h List.not_mem_nil
  | cons a items ih =>
    rcases List.mem_cons.mp h with rfl | h
    · exact fun c => Text.isDigit_of_mem_repr
    · exact ih h

/-- A list knows its width: none of its items goes by that name. -/
theorem Value.fieldOf_widthName (items : List Value) :
    (Value.list items).fieldOf Row.widthName = .ok (.count items.length) := by
  have hitems : Members.get? (Members.numbered 0 items) Row.widthName = none := by
    refine Members.get?_eq_none fun hname => ?_
    have hdigit := Members.isDigit_of_mem_names hname 'l' (by decide)
    exact absurd hdigit (by decide)
  have hheld : (Value.list items).held? Row.widthName = some (.count items.length) := by
    simp only [held?, ownMembers, hitems]
    rfl
  simp only [fieldOf, answer?, hheld]
  rfl

namespace Request

/-- Whether the arguments of a request are of the declared sorts: a row is a list. Columns, schemas
and names are so by their types, and no line tells what table rows and native records hold. -/
def IsDeclared : Request → Prop
  | .toTableRow row _ => ∃ items, row = .list items
  | _ => True

theorem shows_counted {name : String} (hname : name ≠ Members.reservedName) (n : Nat) :
    Logger.Shows [counted name n] :=
  .cons hname (Value.isShown_count n) Logger.shows_nil

/-- Declared requests are summed up by members that are shown. -/
theorem exists_summary {request : Request} (h : request.IsDeclared) :
    ∃ summary, request.summary = .ok summary ∧ Logger.Shows summary := by
  have hfields (n : Nat) : Logger.Shows [counted "field_count" n] :=
    shows_counted (by decide) n
  cases request with
  | toTableRow row schema =>
    obtain ⟨items, rfl⟩ := h
    refine ⟨[("value_count", .count items.length), counted "field_count" schema.length], ?_, ?_⟩
    · rw [summary, Value.fieldOf_widthName]
      rfl
    · exact .cons (by decide) (Value.isShown_count _) (hfields _)
  | toAvroSchema name columns space =>
    exact ⟨_, rfl, .cons (by decide) (Value.isShown_string name) (hfields _)⟩
  | fromTableSchema columns => exact ⟨_, rfl, hfields _⟩
  | toTableSchema schema => exact ⟨_, rfl, hfields _⟩
  | fromTableRow schema tableRow => exact ⟨_, rfl, hfields _⟩
  | fromAvro record schema => exact ⟨_, rfl, hfields _⟩
  | avroToTableRow record columns => exact ⟨_, rfl, hfields _⟩
  | fingerprint columns => exact ⟨_, rfl, hfields _⟩

end Request

/-! ## What lines say of outcomes -/

namespace Journal

variable {request : Request}

theorem exists_fields (journal : Journal) (h : request.IsDeclared) :
    ∃ fields, journal.fields request = .ok fields ∧ Logger.Shows fields := by
  obtain ⟨summary, hsummary, hshows⟩ := Request.exists_summary h
  refine ⟨_, Outcome.map_eq_ok.mpr ⟨summary, hsummary, rfl⟩, .append ?_ hshows⟩
  exact .cons (by decide) (Value.isShown_string _)
    (Request.shows_counted (by decide) journal.elapsed)

theorem shows_failureFields (failure : Failure) : Logger.Shows (failureFields failure) := by
  have herror : Logger.Shows [("error", Value.ofFailure failure)] :=
    .cons (by decide) (Value.isShown_ofFailure failure) Logger.shows_nil
  cases failure with
  | conversion e =>
    exact .cons (by decide) (Value.isShown_string _) <|
      .cons (by decide) (Value.isShown_ofText? e.field) <|
        .cons (by decide) (Value.isShown_bool _) herror
  | settings message => exact herror
  | shape issues => exact herror
  | other name message => exact herror

/-- Where the logger takes the level of an event, the event leaves its line. -/
theorem exists_lines (journal : Journal) {level : LogLevel} {fields : Members Value}
    (hlevel : journal.logger.level.admits level = true) (hown : Logger.Shows journal.logger.fields)
    (hfields : Logger.Shows fields) (message : String) :
    ∃ line, journal.logger.line? journal.time level message fields = .ok (some line) ∧
      journal.lines level message fields = .ok [line] := by
  obtain ⟨line, hline⟩ := Logger.exists_line hlevel hown hfields journal.time message
  exact ⟨line, hline, Outcome.map_eq_ok.mpr ⟨some line, hline, rfl⟩⟩

/-- Where it does not, the event leaves nothing. -/
theorem lines_eq_nil (journal : Journal) {level : LogLevel}
    (hlevel : journal.logger.level.admits level = false)
    (message : String) (fields : Members Value) : journal.lines level message fields = .ok [] := by
  rw [lines, Logger.line?, hlevel]
  rfl

end Journal

/-! ## Lines of calls -/

/-- The lines that a call with its outcome leaves: the line of its success on a logger that takes
everything, the line of its failure on a logger that does not take errors only. -/
inductive AnsweredCall.Leaves (logger : Logger) : AnsweredCall → List String → Prop
  /-- A success that is written down. -/
  | succeeded {call : Call} {answer : call.request.Answer} {fields : Members Value} {line : String}
      (hlevel : logger.level = .debug)
      (hfields : (call.journal logger).fields call.request = .ok fields)
      (hline : logger.line? call.time .debug "Converter call succeeded" fields = .ok (some line)) :
      Leaves logger ⟨call, .ok answer⟩ [line]
  /-- A success that is passed over. -/
  | passed {call : Call} {answer : call.request.Answer} (hlevel : logger.level ≠ .debug) :
      Leaves logger ⟨call, .ok answer⟩ []
  /-- A failure that is written down. -/
  | failed {call : Call} {failure : Failure} {fields : Members Value} {line : String}
      (hlevel : logger.level ≠ .error)
      (hfields : (call.journal logger).fields call.request = .ok fields)
      (hline : logger.line? call.time .warn "Converter call failed"
        (fields ++ Journal.failureFields failure) = .ok (some line)) :
      Leaves logger ⟨call, .error failure⟩ [line]
  /-- A failure that is passed over. -/
  | ignored {call : Call} {failure : Failure} (hlevel : logger.level = .error) :
      Leaves logger ⟨call, .error failure⟩ []

theorem LogLevel.admits_debug {level : LogLevel} : level.admits .debug = true ↔ level = .debug := by
  cases level <;> decide

theorem LogLevel.admits_warn {level : LogLevel} : level.admits .warn = true ↔ level ≠ .error := by
  cases level <;> decide

namespace Call

variable {logger : Logger} {call : Call}

theorem exists_refuse (hlogger : Logger.Shows logger.fields) (hcall : call.request.IsDeclared)
    (failure : Failure) :
    ∃ lines, (call.journal logger).refuse call.request failure =
        ((.error failure : Except Failure call.request.Answer), lines) ∧
      AnsweredCall.Leaves logger ⟨call, .error failure⟩ lines := by
  obtain ⟨fields, hfields, hshows⟩ := (call.journal logger).exists_fields hcall
  rw [Journal.refuse, hfields]
  by_cases hlevel : logger.level = .error
  · have hadmits : logger.level.admits .warn = false := by rw [hlevel]; rfl
    refine ⟨[], ?_, .ignored hlevel⟩
    rw [Except.bind, (call.journal logger).lines_eq_nil hadmits]
  · obtain ⟨line, hline, hlines⟩ := (call.journal logger).exists_lines
      (LogLevel.admits_warn.mpr hlevel) hlogger
      (hshows.append (Journal.shows_failureFields failure)) "Converter call failed"
    refine ⟨[line], ?_, .failed hlevel hfields hline⟩
    rw [Except.bind, hlines]

/-- A journal notes every outcome of a declared request as it is. -/
theorem exists_note (hlogger : Logger.Shows logger.fields) (hcall : call.request.IsDeclared)
    (outcome : Except Failure call.request.Answer) :
    ∃ lines, (call.journal logger).note call.request outcome = (outcome, lines) ∧
      AnsweredCall.Leaves logger ⟨call, outcome⟩ lines := by
  cases outcome with
  | error failure => exact exists_refuse hlogger hcall failure
  | ok answer =>
    obtain ⟨fields, hfields, hshows⟩ := (call.journal logger).exists_fields hcall
    rw [Journal.note, hfields]
    by_cases hlevel : logger.level = .debug
    · obtain ⟨line, hline, hlines⟩ := (call.journal logger).exists_lines
        (LogLevel.admits_debug.mpr hlevel) hlogger hshows "Converter call succeeded"
      refine ⟨[line], ?_, .succeeded hlevel hfields hline⟩
      rw [Except.bind, hlines]
    · have hadmits : logger.level.admits .debug = false :=
        Bool.eq_false_iff.mpr fun h => hlevel (LogLevel.admits_debug.mp h)
      refine ⟨[], ?_, .passed hlevel⟩
      rw [Except.bind, (call.journal logger).lines_eq_nil hadmits]

end Call

namespace Responder

variable {σ : Type}

/-- A call with a journal is the call, and what it leaves goes to the end of the log. -/
theorem exists_journaled (responder : Responder σ) {logger : Logger} {call : Call}
    (hlogger : Logger.Shows logger.fields) (hcall : call.request.IsDeclared) (s : σ)
    (log : List String) :
    ∃ lines,
      responder.journaled logger call (s, log) =
        ((responder call s).1, (responder call s).2, log ++ lines) ∧
      AnsweredCall.Leaves logger ⟨call, (responder call s).1⟩ lines := by
  obtain ⟨lines, hnote, hleaves⟩ := Call.exists_note hlogger hcall (responder call s).1
  refine ⟨lines, ?_, hleaves⟩
  simp only [journaled, hnote]

/-- With a journal, calls have the outcomes that they have without one, and the same is remembered of
them; the log grows by what each call leaves, in the order of the calls. Fields that a logger has of
its own, if any, have to be shown. -/
theorem answers_journaled (responder : Responder σ) {logger : Logger}
    (hlogger : Logger.Shows logger.fields) {calls : List Call}
    (hcalls : ∀ call ∈ calls, call.request.IsDeclared) (s : σ) (log : List String) :
    ∃ entries,
      (responder.journaled logger).answers calls (s, log) =
        ((responder.answers calls s).1, (responder.answers calls s).2, log ++ entries.flatten) ∧
      List.Forall₂ (AnsweredCall.Leaves logger) (responder.answers calls s).1 entries := by
  induction calls generalizing s log with
  | nil => exact ⟨[], by rw [List.flatten_nil, List.append_nil]; rfl, .nil⟩
  | cons call calls ih =>
    obtain ⟨lines, hcall, hleaves⟩ :=
      responder.exists_journaled hlogger (hcalls call List.mem_cons_self) s log
    obtain ⟨entries, hrest, hentries⟩ :=
      ih (fun c hc => hcalls c (List.mem_cons_of_mem call hc)) (responder call s).2 (log ++ lines)
    refine ⟨lines :: entries, ?_, .cons hleaves hentries⟩
    simp only [answers, hcall, hrest, List.flatten_cons, List.append_assoc]

/-- A responder that is busy after its first call: the success and the failure leave a line each. -/
theorem answers_journaled_busy :
    let busy : Responder Nat := fun call n =>
      (if n = 0 then call.request.answer { } else .error (.plain "busy"), n + 1)
    let logger : Logger := { level := .debug, format := .json, fields := [("runId", .string "7")] }
    let calls : List Call :=
      [⟨.fingerprint [], "09:00", 2⟩, ⟨.toTableRow (.list [.null]) [], "09:01", 0⟩]
    Logger.Shows logger.fields ∧ (∀ call ∈ calls, call.request.IsDeclared) ∧
      ∃ success failure, ((busy.journaled logger).answers calls (0, [])).2 =
        (2, [success, failure]) := by
  intro busy logger calls
  have hlogger : Logger.Shows logger.fields :=
    .cons (by decide) (Value.isShown_string "7") Logger.shows_nil
  have hcalls : ∀ call ∈ calls, call.request.IsDeclared := by
    simp only [calls, List.forall_mem_cons]
    exact ⟨trivial, ⟨_, rfl⟩, List.forall_mem_nil _⟩
  refine ⟨hlogger, hcalls, ?_⟩
  obtain ⟨entries, hrun, hleaves⟩ := answers_journaled busy hlogger hcalls 0 []
  have hbare : busy.answers calls 0 =
      ([⟨⟨.fingerprint [], "09:00", 2⟩, .ok (Descriptor.fingerprint [])⟩,
        ⟨⟨.toTableRow (.list [.null]) [], "09:01", 0⟩, .error (.plain "busy")⟩], 2) := rfl
  rw [hbare] at hrun hleaves
  rw [hrun]
  obtain ⟨_, _, hfirst, hrest, rfl⟩ := List.forall₂_cons_left_iff.mp hleaves
  obtain ⟨_, _, hsecond, hnil, rfl⟩ := List.forall₂_cons_left_iff.mp hrest
  obtain rfl := List.forall₂_nil_left_iff.mp hnil
  cases hfirst with
  | passed hlevel => exact absurd rfl hlevel
  | succeeded =>
    cases hsecond with
    | ignored hlevel => exact absurd hlevel (by decide)
    | failed => exact ⟨_, _, rfl⟩

end Responder

end WarehouseRows
