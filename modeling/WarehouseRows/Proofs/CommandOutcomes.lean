import WarehouseRows.Command.Run
import WarehouseRows.Proofs.LogLines

/-!
# What a run leaves

A run either succeeds with one text in the output, or fails with none there and at least one in the
errors. Whatever goes wrong is reported as one text: failures that a user can act on by their
message, and all others by a log line. The line cannot be missing, since no logger is above the
level of errors and its fields are texts and a failure.

## Main definitions

* `Outcome.IsWhole`: the outcomes of runs that do all or nothing.
-/

namespace WarehouseRows

/-- Whether a run did all it had to, with one text in the output, or left nothing there and said
why. -/
def Outcome.IsWhole (outcome : Outcome) : Prop :=
  (outcome.code = 0 ∧ ∃ text, outcome.output = [text]) ∨
    (outcome.code = 1 ∧ outcome.output = [] ∧ outcome.errors ≠ [])

theorem Outcome.isWhole_failed {errors : List String} (h : errors ≠ []) :
    (Outcome.failed errors).IsWhole :=
  Or.inr ⟨rfl, rfl, h⟩

/-- No logger is above the level of errors. -/
theorem LogLevel.admits_error (level : LogLevel) : level.admits .error = true := by
  cases level <;> rfl

/-! ## Reports -/

namespace Surroundings

variable {logger : Logger}

/-- The logger of a command has fields that are shown: they are texts. -/
theorem shows_logger (s : Surroundings) (settings : Settings) (command : String) :
    Logger.Shows (s.logger settings command).fields := by
  intro m hm
  have hstored := Members.mem_of_mem_ofPairs hm
  simp only [List.nil_append, List.mem_cons, List.not_mem_nil, or_false] at hstored
  rcases hstored with rfl | rfl
  · exact ⟨show Logger.runField ≠ Members.reservedName by decide, Value.isShown_string s.runId⟩
  · exact ⟨show "command" ≠ Members.reservedName by decide, Value.isShown_string command⟩

/-- A failure is reported as one text. -/
theorem exists_report (s : Surroundings) (h : Logger.Shows logger.fields) (failure : Failure) :
    ∃ text, s.report logger failure = [text] := by
  cases failure with
  | conversion e => exact ⟨_, rfl⟩
  | settings message => exact ⟨_, rfl⟩
  | shape issues => exact ⟨_, rfl⟩
  | other name message =>
    have hfields : Logger.Shows [("error", Value.ofFailure (.other name message))] := by
      intro m hm
      obtain rfl := List.mem_singleton.mp hm
      exact ⟨show "error" ≠ Members.reservedName by decide, Value.isShown_ofFailure (.other name message)⟩
    have hlevel : (s.journal logger).logger.level.admits .error = true :=
      logger.level.admits_error
    obtain ⟨line, hline⟩ := Logger.exists_line hlevel h hfields (s.journal logger).time
      "Command failed"
    exact ⟨line, by simp only [report, Journal.lines, hline]; rfl⟩

theorem report_ne_nil (s : Surroundings) (h : Logger.Shows logger.fields) (failure : Failure) :
    s.report logger failure ≠ [] := by
  obtain ⟨text, htext⟩ := s.exists_report h failure
  simp [htext]

end Surroundings

/-! ## Runs -/

/-- A command that reads its input does all or nothing. -/
theorem runCommand_isWhole {s : Surroundings} {logger : Logger} (h : Logger.Shows logger.fields)
    (options : ConverterOptions) (command : Command) (input : String) :
    (runCommand s logger options command input).IsWhole := by
  rw [runCommand]
  cases s.document input with
  | error failure => exact Outcome.isWhole_failed (s.report_ne_nil h failure)
  | ok j =>
    cases hperform : command.perform (s.journal logger) options j with
    | mk answer lines =>
      cases answer with
      | ok text =>
        simp only [hperform]
        exact Or.inl ⟨rfl, text, rfl⟩
      | error failure =>
        simp only [hperform]
        refine Outcome.isWhole_failed fun hnil => ?_
        exact s.report_ne_nil h failure (List.append_eq_nil_iff.mp hnil).2

/-- Every run does all or nothing, and no report of a failure fails itself, neither before the
settings are read nor under any settings. -/
theorem run_isWhole (s : Surroundings) (words : List String) :
    (run s words).IsWhole ∧
      (∀ failure, ∃ text, s.report { } failure = [text]) ∧
      ∀ settings command failure, ∃ text, s.report (s.logger settings command) failure = [text] := by
  have hfresh : Logger.Shows ({ } : Logger).fields := fun m hm => absurd hm List.not_mem_nil
  refine ⟨?_, s.exists_report hfresh, fun settings command =>
    s.exists_report (s.shows_logger settings command)⟩
  rw [run]
  split
  · exact Or.inl ⟨rfl, usage, rfl⟩
  · split
    · exact Outcome.isWhole_failed (s.report_ne_nil hfresh _)
    · exact Outcome.isWhole_failed (List.cons_ne_nil _ _)
    · split
      · exact Outcome.isWhole_failed (s.report_ne_nil hfresh _)
      · split
        · exact Outcome.isWhole_failed (List.cons_ne_nil _ _)
        · exact runCommand_isWhole (s.shows_logger _ _) _ _ _

end WarehouseRows
