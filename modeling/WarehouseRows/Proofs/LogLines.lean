import WarehouseRows.Converter.Journal
import WarehouseRows.Proofs.Members
import WarehouseRows.Proofs.Outcome

/-!
# Lines that a log can hold

A log line is written whenever the logger takes lines of its level and each of its fields can be
shown: redaction has to give a value, and that value has to have a JSON form. Texts and failures are
such values, so what a run says of itself is always written.

## Main definitions

* `Value.IsShown`: the values that a log line can hold.
* `Logger.Shows`: the members that a logger can put into a line.
-/

namespace WarehouseRows

/-! ## Values in log lines -/

namespace Value

/-- Whether a value has a JSON form, be it that of a value that is left out. -/
def HasForm (v : Value) : Prop :=
  ∃ form, v.toJson = .ok form

/-- Whether a log line can hold a value, whatever the traces of the errors in it. -/
def IsShown (v : Value) : Prop :=
  ∀ traceOf, ∃ safe, Redaction.value v traceOf = .ok safe ∧ safe.HasForm

theorem isShown_string (s : String) : (Value.string s).IsShown :=
  fun _ => ⟨_, rfl, _, rfl⟩

theorem isShown_count (n : Nat) : (count n).IsShown :=
  fun _ => ⟨_, rfl, _, rfl⟩

theorem isShown_bool (b : Bool) : (Value.bool b).IsShown :=
  fun _ => ⟨_, rfl, _, rfl⟩

theorem isShown_ofText? (text : Option String) : (ofText? text).IsShown := by
  cases text with
  | none => exact fun _ => ⟨_, rfl, _, rfl⟩
  | some s => exact isShown_string s

theorem hasForm_errorRecord (name message trace : String) :
    (Redaction.errorRecord (.string name) message trace).HasForm := by
  rw [Redaction.errorRecord]
  split <;> exact ⟨_, rfl⟩

/-- A failure is shown by its name, its message and its trace. -/
theorem isShown_ofFailure (failure : Failure) : (ofFailure failure).IsShown := by
  intro traceOf
  cases failure <;> exact ⟨_, rfl, hasForm_errorRecord _ _ _⟩

theorem exists_memberForms {members : Members Value} (h : ∀ m ∈ members, m.2.HasForm) :
    ∃ forms, memberForms members = .ok forms := by
  induction members with
  | nil => exact ⟨[], rfl⟩
  | cons m members ih =>
    obtain ⟨name, v⟩ := m
    obtain ⟨form, hform⟩ := h _ List.mem_cons_self
    obtain ⟨forms, hforms⟩ := ih fun m hm => h m (List.mem_cons_of_mem _ hm)
    exact ⟨Json.optional name form ++ forms, by rw [memberForms, hform, hforms]; rfl⟩

/-- A record of members that have a JSON form has one. -/
theorem hasForm_record {members : Members Value} (h : ∀ m ∈ members, m.2.HasForm) :
    (record members).HasForm := by
  obtain ⟨forms, hforms⟩ := exists_memberForms h
  exact ⟨_, by rw [toJson, hforms]; rfl⟩

end Value

namespace Members

variable {α : Type}

theorem mem_insert {members : Members α} {name : String} {a : α} {m : String × α}
    (h : m ∈ members.insert name a) : m = (name, a) ∨ m ∈ members := by
  rw [insert] at h
  split at h
  · obtain ⟨n, hn, rfl⟩ := List.mem_map.mp h
    split
    · exact Or.inl rfl
    · exact Or.inr hn
  · split at h
    · rename_i i _
      rw [← List.takeWhile_append_dropWhile (p := precedes i) (l := members)]
      grind
    · exact (List.mem_append.mp h).symm.imp_left List.mem_singleton.mp

/-- Only what is stored is among the members. -/
theorem mem_of_mem_ofPairs {pairs : List (String × α)} {m : String × α} (h : m ∈ ofPairs pairs) :
    m ∈ pairs := by
  have hstored (stored : Members α) (hm : m ∈ insertAll stored pairs) : m ∈ stored ∨ m ∈ pairs := by
    clear h
    induction pairs generalizing stored with
    | nil => exact Or.inl hm
    | cons p pairs ih =>
      rcases ih _ hm with hm | hm
      · exact (mem_insert hm).symm.imp_right fun heq : m = p => heq ▸ List.mem_cons_self
      · exact Or.inr (List.mem_cons_of_mem _ hm)
  exact (hstored [] h).resolve_left List.not_mem_nil

end Members

/-! ## Lines -/

namespace Redaction

/-- Members that can be shown are safe to log under their names. -/
theorem exists_pairs {members : Members Value} (h : ∀ m ∈ members, m.2.IsShown)
    (traceOf : Value → String) :
    ∃ safe, pairs members traceOf = .ok safe ∧ safe.map Prod.fst = members.map Prod.fst ∧
      ∀ m ∈ safe, m.2.HasForm := by
  induction members with
  | nil => exact ⟨[], rfl, rfl, by simp⟩
  | cons m members ih =>
    obtain ⟨name, v⟩ := m
    obtain ⟨safe, hsafe, hnames, hforms⟩ := ih fun m hm => h m (List.mem_cons_of_mem _ hm)
    by_cases hsecret : isSecretName name = true
    · refine ⟨(name, .string mask) :: safe, ?_, congrArg (name :: ·) hnames, ?_⟩
      · rw [pairs, if_pos hsecret, hsafe]
        rfl
      · exact List.forall_mem_cons.mpr ⟨⟨_, rfl⟩, hforms⟩
    · obtain ⟨first, hfirst, hform⟩ := h _ List.mem_cons_self traceOf
      refine ⟨(name, first) :: safe, ?_, congrArg (name :: ·) hnames, ?_⟩
      · rw [pairs, if_neg hsecret, hfirst, hsafe]
        rfl
      · exact List.forall_mem_cons.mpr ⟨hform, hforms⟩

end Redaction

namespace Logger

/-- Whether a logger can put members into a line: all are shown, and none has the name of the
parent. -/
def Shows (members : Members Value) : Prop :=
  ∀ m ∈ members, m.1 ≠ Members.reservedName ∧ m.2.IsShown

theorem shows_nil : Shows [] :=
  List.forall_mem_nil _

theorem Shows.cons {name : String} {v : Value} {members : Members Value}
    (hname : name ≠ Members.reservedName) (hv : v.IsShown) (h : Shows members) :
    Shows ((name, v) :: members) :=
  List.forall_mem_cons.mpr ⟨⟨hname, hv⟩, h⟩

theorem Shows.append {a b : Members Value} (ha : Shows a) (hb : Shows b) : Shows (a ++ b) :=
  fun m hm => (List.mem_append.mp hm).elim (ha m) (hb m)

theorem exists_jsonLine (time : String) (level : LogLevel) (message : String)
    {members : Members Value} (h : ∀ m ∈ members, m.2.HasForm) :
    ∃ line, jsonLine time level message (.record members) = .ok line := by
  obtain ⟨form, hform⟩ : (Value.record (Members.ofPairs ([("ts", .string time),
      ("level", .string level.name), ("msg", .string message)] ++ members))).HasForm := by
    refine Value.hasForm_record fun m hm => ?_
    rcases List.mem_append.mp (Members.mem_of_mem_ofPairs hm) with hm | hm
    · simp only [List.mem_cons, List.not_mem_nil, or_false] at hm
      rcases hm with rfl | rfl | rfl <;> exact ⟨_, rfl⟩
    · exact h m hm
  exact ⟨_, Outcome.map_eq_ok.mpr ⟨form, hform, rfl⟩⟩

/-- A line of a level that the logger takes is written if its fields are shown. -/
theorem exists_line {logger : Logger} {level : LogLevel} {fields : Members Value}
    (hlevel : logger.level.admits level = true) (hown : Shows logger.fields)
    (hfields : Shows fields) (time message : String) :
    ∃ line, logger.line? time level message fields = .ok (some line) := by
  have hmembers : Shows (Members.ofPairs (logger.fields ++ fields)) := by
    intro m hm
    exact (List.mem_append.mp (Members.mem_of_mem_ofPairs hm)).elim (hown m) (hfields m)
  obtain ⟨safe, hsafe, hnames, hforms⟩ :=
    Redaction.exists_pairs (fun m hm => (hmembers m hm).2) logger.traceOf
  have hplain : Members.reservedName ∉ safe.map Prod.fst := by
    intro hin
    rw [hnames] at hin
    obtain ⟨m, hm, heq⟩ := List.mem_map.mp hin
    exact (hmembers m hm).1 heq
  have hrecord : Redaction.record (Members.ofPairs (logger.fields ++ fields)) logger.traceOf =
      .ok (.record (Members.ofPairs safe)) := by
    rw [Redaction.record, hsafe, ← Value.ofAssignments_eq hplain]
    rfl
  obtain ⟨line, hline⟩ := exists_jsonLine time level (Redaction.text message)
    fun m hm => hforms m (Members.mem_of_mem_ofPairs hm)
  rw [line?, if_pos hlevel, hrecord, Outcome.ok_bind]
  split
  · exact ⟨line, Outcome.map_eq_ok.mpr ⟨line, hline, rfl⟩⟩
  · exact ⟨_, rfl⟩

end Logger

end WarehouseRows
