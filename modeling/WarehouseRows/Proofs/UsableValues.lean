import WarehouseRows.Proofs.AvroConformance
import WarehouseRows.Proofs.CountedMoments
import WarehouseRows.Proofs.ReachedPlaces

/-!
# Rows of usable instants and dates

A value is usable if every instant in it is valid and every date in it is one that is accepted for
its parts. Dates and times that are read from their own texts are usable, and so are instants in
the fixed format. What is read from a count, of microseconds, of days or of seconds, is usable just
if the count is in the range: neither reader checks it, and the conversion goes through with an
unusable value.

## Main definitions

* `Value.IsUsable`: whether all instants and dates in a value are usable.
* `MapReader.CountsInRange`, `MapReader.FieldsInRange`: whether all counts that a reader finds in a
  raw value are in the range.
-/

namespace WarehouseRows

/-! ## Usable values -/

namespace Value

/-- Whether a value is another one or holds it, as an item of a list or in an entry of a map. -/
inductive Holds : Value → Value → Prop
  | self (v : Value) : Holds v v
  | item {items : List Value} {item v : Value} (hmem : item ∈ items) (h : Holds item v) :
      Holds (.list items) v
  | key {entries : List (Value × Value)} {e : Value × Value} {v : Value} (hmem : e ∈ entries)
      (h : Holds e.1 v) : Holds (.map entries) v
  | value {entries : List (Value × Value)} {e : Value × Value} {v : Value} (hmem : e ∈ entries)
      (h : Holds e.2 v) : Holds (.map entries) v

/-- Whether a value is usable, apart from what it holds: an instant is valid, and the parts of a
date build it. -/
def IsUsableAlone : Value → Prop
  | .instant t => t.IsValid
  | .date d => d.IsAccepted
  | .dateTime x => x.date.IsAccepted
  | _ => True

/-- Whether all instants and dates in a value are usable. -/
def IsUsable (value : Value) : Prop :=
  ∀ v, value.Holds v → v.IsUsableAlone

theorem isUsable_list {items : List Value} :
    (list items).IsUsable ↔ ∀ item ∈ items, item.IsUsable := by
  constructor
  · exact fun h item hmem v hv => h v (.item hmem hv)
  · intro h v hv
    cases hv with
    | self => exact trivial
    | item hmem hv => exact h _ hmem v hv

theorem isUsable_map {entries : List (Value × Value)} :
    (map entries).IsUsable ↔ ∀ e ∈ entries, e.1.IsUsable ∧ e.2.IsUsable := by
  constructor
  · exact fun h e hmem => ⟨fun v hv => h v (.key hmem hv), fun v hv => h v (.value hmem hv)⟩
  · intro h v hv
    cases hv with
    | self => exact trivial
    | key hmem hv => exact (h _ hmem).1 v hv
    | value hmem hv => exact (h _ hmem).2 v hv

/-- A value that holds no others is usable just if it is by itself. -/
theorem isUsable_iff_alone {value : Value} (h : ∀ v, value.Holds v → v = value) :
    value.IsUsable ↔ value.IsUsableAlone :=
  ⟨fun husable => husable value (.self value), fun halone v hv => (h v hv).symm ▸ halone⟩

@[simp] theorem isUsable_instant {t : Instant} : (instant t).IsUsable ↔ t.IsValid :=
  isUsable_iff_alone fun _ hv => by cases hv; rfl

@[simp] theorem isUsable_date {d : LocalDate} : (date d).IsUsable ↔ d.IsAccepted :=
  isUsable_iff_alone fun _ hv => by cases hv; rfl

@[simp] theorem isUsable_dateTime {x : LocalDateTime} :
    (dateTime x).IsUsable ↔ x.date.IsAccepted :=
  isUsable_iff_alone fun _ hv => by cases hv; rfl

theorem isUsable_of_isAbsent {value : Value} (h : value.isAbsent = true) : value.IsUsable := by
  intro v hv
  cases hv with
  | self =>
    cases value with
    | null | missing => exact trivial
    | _ => exact absurd h (by simp [isAbsent])
  | item | key | value => exact absurd h (by simp [isAbsent])

@[simp] theorem isUsable_number (x : Double) : (number x).IsUsable := by
  intro v hv
  cases hv
  exact trivial

@[simp] theorem isUsable_time (t : LocalTime) : (time t).IsUsable := by
  intro v hv
  cases hv
  exact trivial

/-- A date and time that is in range is usable. -/
theorem isUsable_of_inRange {x : LocalDateTime} (h : x.InRange) : (dateTime x).IsUsable :=
  isUsable_dateTime.mpr (LocalDate.isAccepted_iff_isReal.mpr h.real)

/-- The form in which a key is stored makes no difference. -/
theorem isUsable_asKey {value : Value} : value.asKey.IsUsable ↔ value.IsUsable := by
  cases value with
  | number x => exact iff_of_true (isUsable_number _) (isUsable_number x)
  | _ => exact Iff.rfl

end Value

/-- The scalars of the kinds that are no instants are usable. -/
theorem PrimitiveKind.isUsable_of_isScalar {kind : PrimitiveKind} {value : Value}
    (hkind : kind ≠ .datetime) (h : kind.IsScalar value) : value.IsUsable := by
  intro v hv
  cases kind with
  | datetime => exact absurd rfl hkind
  | byte | int16 | int32 =>
    obtain ⟨x, n, rfl, _⟩ := h
    cases hv
    exact trivial
  | int64 =>
    obtain ⟨n, rfl, _⟩ := h
    cases hv
    exact trivial
  | float32 | float64 | decimal | boolean | string | bytes =>
    obtain ⟨x, rfl⟩ := h
    cases hv
    exact trivial

/-! ## Counts in the range -/

namespace MapReader

/-- Whether a count that a reader takes for an instant is in the range: microseconds of a native
integer, cut to milliseconds, or seconds in a text that is not in the fixed format. -/
def InstantInRange (reader : MapReader) (raw : Value) : Prop :=
  match reader with
  | native _ =>
    ∀ micros, Avro.IsLong raw micros →
      (micros.tdiv 1000).natAbs ≤ Instant.maxDays * Instant.millisPerDay
  | cells =>
    ∀ text, Cell.scalarText? raw = some text → text ≠ "" →
      PrimitiveKind.endsInUtc text.toList = false →
        (Double.ofText text).Within (Instant.maxDays * 86400)

/-- Whether a count that a reader takes for a date is in the range; cells hold no such counts. -/
def DateInRange (reader : MapReader) (raw : Value) : Prop :=
  match reader with
  | native _ =>
    ∀ x days, raw = .number x → x.whole? = some days → days.natAbs ≤ Instant.maxDays
  | cells => True

mutual

/-- Whether all counts of instants and dates that a reader finds in a raw value of a type are in
the range. -/
def CountsInRange (reader : MapReader) (type : FieldType) (raw : Value) : Prop :=
  match type with
  | .primitive kind => kind = .datetime → reader.InstantInRange raw
  | .array element _ =>
    ∀ items, raw = .list items → ∀ item ∈ items,
      CountsInRange reader element ((Converter.reads reader).item element item)
  | .map key value valueNullable =>
    ∀ items, raw = .list items → ∀ item ∈ items, ∀ entry,
      reader.split (.map key value valueNullable) item = .ok entry →
        CountsInRange reader key entry.1 ∧ CountsInRange reader value entry.2
  | .row fields => FieldsInRange reader fields raw
  | .logical _ base representation _ =>
    match representation with
    | .date => reader.DateInRange raw
    | .timeWithLocalTz => reader.InstantInRange raw
    | .passThrough => CountsInRange reader base raw
    | .time | .datetime | .enumeration | .custom | .unknown _ => True
  | .unknown _ => True

/-- Whether all counts that a reader finds in the fields of a record are in the range. -/
def FieldsInRange (reader : MapReader) (fields : List Field) (record : Value) : Prop :=
  match fields with
  | [] => True
  | f :: rest =>
    (∀ raw, record.fieldOf f.name = .ok raw → CountsInRange reader f.type raw) ∧
      FieldsInRange reader rest record

end

variable {reader : MapReader}

theorem fieldsInRange_iff {fields : List Field} {record : Value} :
    reader.FieldsInRange fields record ↔
      ∀ f ∈ fields, ∀ raw, record.fieldOf f.name = .ok raw → reader.CountsInRange f.type raw := by
  induction fields with
  | nil => simp [FieldsInRange]
  | cons f fields ih => simp [FieldsInRange, ih]

/-- There are no counts in what is absent. -/
theorem countsInRange_of_absent {type : FieldType} {raw : Value} (h : raw.isAbsent = true) :
    reader.CountsInRange type raw := by
  have hraw : raw = .null ∨ raw = .missing := by
    cases raw with
    | null => exact Or.inl rfl
    | missing => exact Or.inr rfl
    | _ => exact absurd h (by simp [Value.isAbsent])
  have hinstant : reader.InstantInRange raw := by
    cases reader with
    | native options =>
      intro micros hlong
      rw [Avro.isAbsent_of_isLong hlong] at h
      exact absurd h Bool.false_ne_true
    | cells =>
      intro text htext
      rcases hraw with rfl | rfl <;> exact absurd htext (by simp [Cell.scalarText?])
  induction type with
  | primitive kind => exact fun _ => hinstant
  | array element elementNullable _ =>
    rintro items rfl
    exact absurd h (by simp [Value.isAbsent])
  | map key value valueNullable _ _ =>
    rintro items rfl
    exact absurd h (by simp [Value.isAbsent])
  | row fields _ =>
    refine fieldsInRange_iff.mpr fun f _ value hvalue => ?_
    rcases hraw with rfl | rfl <;> exact absurd hvalue (by simp [Value.fieldOf])
  | logical identifier base representation labels ih =>
    cases representation with
    | date =>
      cases reader with
      | native options =>
        rintro x days rfl
        exact absurd h (by simp [Value.isAbsent])
      | cells => exact trivial
    | timeWithLocalTz => exact hinstant
    | passThrough => exact ih
    | time | datetime | enumeration | custom | unknown => exact trivial
  | unknown kind => exact trivial

end MapReader

end WarehouseRows
