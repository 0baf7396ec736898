import WarehouseRows.Log.Logger
import WarehouseRows.Proofs.Members

/-!
# Secrets never reach a log line

What stands under the name of a secret has no influence on a log. If two runs log fields that are the
same once all secrets in them are blotted out, at any depth of records and lists, they write the same
line, or fail in the same way. This holds in both formats and for loggers that have their fields from
any number of ancestors: fields that replace others are chosen by name, and blotting out leaves names
where they are.

## Main definitions

* `Redaction.NamesSecret`: the names of secrets.
* `Redaction.blotted`, `Redaction.blottedMembers`: values and members without their secrets.
-/

namespace WarehouseRows

/-! ## Members whose values change under their names -/

namespace Members

variable {α β : Type} (f : String → α → β)

/-- The members with each value replaced, in a way that may depend on the name. -/
def mapValues (members : Members α) : Members β :=
  members.map fun m => (m.1, f m.1 m.2)

theorem mapValues_append (a b : Members α) : mapValues f (a ++ b) = mapValues f a ++ mapValues f b :=
  List.map_append

theorem contains_mapValues (members : Members α) (name : String) :
    contains (mapValues f members) name = contains members name := by
  simp [contains, mapValues, Function.comp_def]

theorem mapValues_replace (members : Members α) (name : String) (a : α) :
    mapValues f (members.replace name a) = replace (mapValues f members) name (f name a) := by
  rw [mapValues, replace, replace, mapValues, List.map_map, List.map_map]
  refine List.map_congr_left fun m _ => ?_
  by_cases h : m.1 = name <;> simp [h]

/-- Where a new member goes depends on names only. -/
theorem mapValues_insert (members : Members α) (name : String) (a : α) :
    mapValues f (members.insert name a) = insert (mapValues f members) name (f name a) := by
  rw [insert, insert, contains_mapValues]
  split
  · exact mapValues_replace f members name a
  · split
    · have hprecedes (i : Nat) :
          precedes i ∘ (fun m : String × α => (m.1, f m.1 m.2)) = precedes i := rfl
      rw [mapValues_append, mapValues, mapValues, mapValues, List.takeWhile_map,
        List.dropWhile_map, hprecedes]
      rfl
    · rw [mapValues_append]
      rfl

theorem mapValues_ofPairs (pairs : List (String × α)) :
    mapValues f (ofPairs pairs) = ofPairs (mapValues f pairs) := by
  rw [ofPairs, ofPairs, mapValues, mapValues, List.foldl_map]
  refine (List.foldl_hom (mapValues f) fun members p => ?_).symm
  exact (mapValues_insert f members p.1 p.2).symm

end Members

/-! ## Values without their secrets -/

namespace Redaction

/-- The names of secrets as they are usually written. -/
def secretWords : List String :=
  ["password", "pass", "token", "accessToken", "apiKey", "secret", "credentials", "privateKey",
    "authorization"]

/-- Whether a name is the name of a secret; small and capital letters count alike. -/
def NamesSecret (name : String) : Prop :=
  ∃ word ∈ secretWords, Text.asciiLower name = Text.asciiLower word

instance (name : String) : Decidable (NamesSecret name) :=
  inferInstanceAs (Decidable (∃ word ∈ secretWords, Text.asciiLower name = Text.asciiLower word))

/-- The names whose members are masked are those of secrets. -/
theorem isSecretName_iff (name : String) : isSecretName name = true ↔ NamesSecret name := by
  have hnames : secretNames = secretWords.map Text.asciiLower := by decide
  rw [isSecretName, hnames, List.contains_iff_mem, List.mem_map, NamesSecret]
  simp only [eq_comm]

mutual

/-- The value without its secrets, at any depth of lists and records. -/
def blotted : Value → Value
  | .list items => .list (blottedItems items)
  | .record members => .record (blottedMembers members)
  | v => v

/-- The items without their secrets. -/
def blottedItems : List Value → List Value
  | [] => []
  | item :: rest => blotted item :: blottedItems rest

/-- The members with nothing under the names of secrets, and the others without theirs. -/
def blottedMembers : List (String × Value) → List (String × Value)
  | [] => []
  | (name, v) :: rest =>
    (name, if NamesSecret name then .missing else blotted v) :: blottedMembers rest

end

theorem blottedMembers_eq (members : Members Value) :
    blottedMembers members =
      members.mapValues fun name v => if NamesSecret name then .missing else blotted v := by
  induction members with
  | nil => rfl
  | cons m members ih =>
    obtain ⟨name, v⟩ := m
    rw [blottedMembers, ih]
    rfl

/-! ## Redaction sees no secrets -/

section

variable (traceOf : Value → String)

mutual

/-- Redaction makes nothing of the secrets in a value. -/
theorem value_blotted (v : Value) : value (blotted v) traceOf = value v traceOf := by
  match v with
  | .list list => rw [blotted, value, value, items_blotted]
  | .record list => rw [blotted, value, value, pairs_blotted]
  | .null | .missing | .bool _ | .number _ | .integer _ | .string _ | .bytes _ | .buffer _
  | .instant _ | .decimal _ | .date _ | .time _ | .dateTime _ | .map _ | .heir _ _ | .bare _
  | .archetype _ | .error _ _ _ | .failure _ _ | .builtin _ => rfl

theorem items_blotted (list : List Value) :
    items (blottedItems list) traceOf = items list traceOf := by
  match list with
  | [] => rfl
  | item :: rest => rw [blottedItems, items, items, value_blotted, items_blotted]

theorem pairs_blotted (list : List (String × Value)) :
    pairs (blottedMembers list) traceOf = pairs list traceOf := by
  match list with
  | [] => rfl
  | (name, v) :: rest =>
    rw [blottedMembers, pairs, pairs, pairs_blotted]
    by_cases h : NamesSecret name
    · simp only [(isSecretName_iff name).mpr h, if_true]
    · have hopen : ¬ isSecretName name = true := fun hc => h ((isSecretName_iff name).mp hc)
      simp only [h, hopen, if_false, value_blotted]

end

/-- The record of a log line is the same for members that are the same without their secrets. -/
theorem record_congr {members others : Members Value}
    (h : blottedMembers members = blottedMembers others) :
    record members traceOf = record others traceOf := by
  rw [record, record, ← pairs_blotted traceOf members, h, pairs_blotted]

end

/-- Members that are stored one after another are the same without their secrets if these were. -/
theorem blotted_ofPairs_congr {a a' b b' : Members Value}
    (ha : blottedMembers a = blottedMembers a') (hb : blottedMembers b = blottedMembers b') :
    blottedMembers (Members.ofPairs (a ++ b)) = blottedMembers (Members.ofPairs (a' ++ b')) := by
  simp only [blottedMembers_eq] at ha hb ⊢
  simp only [Members.mapValues_ofPairs, Members.mapValues_append, ha, hb]

end Redaction

/-! ## Log lines -/

namespace Logger

open Redaction

/-- Whether two loggers are the same without the secrets in their fields. -/
structure Agrees (logger other : Logger) : Prop where
  level : logger.level = other.level
  format : logger.format = other.format
  fields : blottedMembers logger.fields = blottedMembers other.fields
  traceOf : logger.traceOf = other.traceOf

theorem Agrees.refl (logger : Logger) : logger.Agrees logger :=
  ⟨rfl, rfl, rfl, rfl⟩

variable {logger other : Logger}

theorem Agrees.child (h : logger.Agrees other) {fields fields' : Members Value}
    (hfields : blottedMembers fields = blottedMembers fields') :
    (logger.child fields).Agrees (other.child fields') :=
  ⟨h.level, h.format, blotted_ofPairs_congr h.fields hfields, h.traceOf⟩

/-- Descendants agree that were given fields that do, one after another. -/
theorem Agrees.descendant (h : logger.Agrees other) {layers layers' : List (Members Value)}
    (hlayers : layers.map blottedMembers = layers'.map blottedMembers) :
    (layers.foldl Logger.child logger).Agrees (layers'.foldl Logger.child other) := by
  induction layers generalizing logger other layers' with
  | nil =>
    obtain rfl := List.map_eq_nil_iff.mp hlayers.symm
    exact h
  | cons fields layers ih =>
    cases layers' with
    | nil => simp at hlayers
    | cons fields' layers' =>
      rw [List.map_cons, List.map_cons, List.cons.injEq] at hlayers
      exact ih (h.child hlayers.1) hlayers.2

theorem Agrees.line?_eq (h : logger.Agrees other) {fields fields' : Members Value}
    (hfields : blottedMembers fields = blottedMembers fields') (time : String) (level : LogLevel)
    (message : String) :
    logger.line? time level message fields = other.line? time level message fields' := by
  rw [line?, line?, h.level, h.format, h.traceOf,
    record_congr other.traceOf (blotted_ofPairs_congr h.fields hfields)]

/-- Two runs whose fields differ in their secrets only write the same lines. -/
theorem line?_eq_of_blotted (root : Logger) {layers layers' : List (Members Value)}
    {extra extra' : Members Value}
    (hlayers : layers.map blottedMembers = layers'.map blottedMembers)
    (hextra : blottedMembers extra = blottedMembers extra')
    (time : String) (level : LogLevel) (message : String) :
    (layers.foldl child root).line? time level message extra =
      (layers'.foldl child root).line? time level message extra' :=
  ((Agrees.refl root).descendant hlayers).line?_eq hextra time level message

/-- A token in a list, a password in the place of a record, and one that replaces another. -/
theorem line?_eq_of_blotted_layers :
    let run (a b c : Value) : Except Failure (Option String) :=
      ([[("PASS", a), ("jobs", .list [.record [("token", b), ("id", .bool true)]])],
        [("pass", c), ("n", .null)]].foldl child { format := .json }).line? "now" .info "done"
          [("PASS", .record [("n", c)])]
    run (.string "x") .null (.bool true) = run (.list []) (.string "y") .missing :=
  line?_eq_of_blotted _ (by rfl) (by rfl) "now" .info "done"

end Logger

end WarehouseRows
