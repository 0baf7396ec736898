import WarehouseRows.Avro.Reader
import WarehouseRows.Proofs.Outcome
import WarehouseRows.Proofs.Typing

/-!
# The policy for instants that are finer than a millisecond

A reader of native values cuts such an instant or refuses it, as the options say. Nothing else
in the reader looks at the options. Reading a value under both policies therefore takes the same
course up to the first instant that is too fine, wherever it is nested, and there one of the two
readings ends with a loss of precision.

## Main definitions

* `Outcome.SameUnless`: outcomes that are the same, unless the first is a failure of a kind.
* `Failure.IsPrecisionLoss`: the kind of failure in question.
-/

namespace WarehouseRows

/-! ## Outcomes that differ by a kind of failure -/

namespace Outcome

variable {ε α β : Type} {P : ε → Prop}

/-- Whether two outcomes are the same, unless the first is a failure with a property. -/
def SameUnless (P : ε → Prop) (x y : Except ε α) : Prop :=
  x = y ∨ ∃ e, x = .error e ∧ P e

theorem SameUnless.refl (x : Except ε α) : SameUnless P x x :=
  Or.inl rfl

theorem SameUnless.bind {x y : Except ε α} {f g : α → Except ε β} (hxy : SameUnless P x y)
    (hfg : ∀ a, SameUnless P (f a) (g a)) : SameUnless P (x >>= f) (y >>= g) := by
  rcases hxy with rfl | ⟨e, rfl, he⟩
  · cases x with
    | error e => exact Or.inl rfl
    | ok a => exact hfg a
  · exact Or.inr ⟨e, rfl, he⟩

theorem SameUnless.mapError {h : ε → ε} {x y : Except ε α} (hxy : SameUnless P x y)
    (hP : ∀ e, P e → P (h e)) : SameUnless P (x.mapError h) (y.mapError h) := by
  rcases hxy with rfl | ⟨e, rfl, he⟩
  · exact Or.inl rfl
  · exact Or.inr ⟨h e, rfl, hP e he⟩

theorem SameUnless.mapM {f g : α → Except ε β} (hfg : ∀ a, SameUnless P (f a) (g a))
    (xs : List α) : SameUnless P (xs.mapM f) (xs.mapM g) := by
  induction xs with
  | nil => exact .refl _
  | cons x xs ih =>
    rw [List.mapM_cons, List.mapM_cons]
    exact (hfg x).bind fun y => ih.bind fun ys => .refl _

end Outcome

open Outcome (SameUnless)

/-- Whether a failure is a loss of precision. -/
def Failure.IsPrecisionLoss (f : Failure) : Prop :=
  ∃ e, f = .conversion e ∧ e.code = .precisionLoss

/-- A loss of precision is still one when it is seen from an enclosing field. -/
theorem Failure.isPrecisionLoss_inField (name : String) {f : Failure} (h : f.IsPrecisionLoss) :
    (f.inField name).IsPrecisionLoss := by
  obtain ⟨e, rfl, hcode⟩ := h
  refine ⟨e.withField name, rfl, ?_⟩
  rw [← hcode, ConversionError.withField]
  split <;> rfl

/-! ## The two policies -/

namespace ConversionOptions

/-- Instants that are too fine are refused. -/
def rejecting : ConversionOptions := { truncateTimestamps := .reject }

/-- Instants that are too fine are cut. -/
def truncating : ConversionOptions := { truncateTimestamps := .truncate }

end ConversionOptions

open ConversionOptions (rejecting truncating)

theorem Avro.readInstant_sameUnless (type : FieldType) (value : Value) :
    SameUnless Failure.IsPrecisionLoss (readInstant type rejecting value)
      (readInstant type truncating value) := by
  refine (SameUnless.refl (toLong type value)).bind fun micros => ?_
  by_cases hwhole : micros.tmod 1000 = 0
  · simp only [rejecting, truncating, hwhole, if_true]
    exact .refl _
  · simp only [rejecting, hwhole, if_false]
    exact Or.inr ⟨_, rfl, _, rfl, rfl⟩

/-- Of the primitive kinds, only instants have to do with the policy. -/
theorem Avro.readPrimitive_sameUnless (kind : PrimitiveKind) (value : Value) :
    SameUnless Failure.IsPrecisionLoss (readPrimitive kind rejecting value)
      (readPrimitive kind truncating value) := by
  cases kind with
  | datetime => exact readInstant_sameUnless _ value
  | _ => exact .refl _

/-- Entries are split and compared the same way under both policies; so the entries read before
the first loss of precision, and the duplicates among them, are the same. -/
theorem Value.readEntries_sameUnless {P : Failure → Prop}
    {split : Value → Except Failure (Value × Value)}
    {readKey readKey' readValue readValue' : Value → Except Failure Value}
    (hkey : ∀ raw, SameUnless P (readKey raw) (readKey' raw))
    (hvalue : ∀ raw, SameUnless P (readValue raw) (readValue' raw))
    (duplicate : Value → Failure) (entries : List (Value × Value)) (items : List Value) :
    SameUnless P (readEntries split readKey readValue duplicate entries items)
      (readEntries split readKey' readValue' duplicate entries items) := by
  induction items generalizing entries with
  | nil => exact .refl _
  | cons item items ih =>
    rw [readEntries, readEntries]
    refine (SameUnless.refl (split item)).bind fun raw => ?_
    refine (hkey raw.1).bind fun key => ?_
    by_cases hstored : hasKey entries key = true
    · rw [if_pos hstored, if_pos hstored]
      exact .refl _
    · rw [if_neg hstored, if_neg hstored]
      exact (hvalue raw.2).bind fun value => ih (storeEntry entries key value)

namespace FieldType

/-- Fields whose types are read alike are read alike, one after another. -/
theorem readAvroFields_sameUnless {fields : List Field}
    (hfields : ∀ f ∈ fields, ∀ nullable raw, SameUnless Failure.IsPrecisionLoss
      (readAvro rejecting f.type nullable raw) (readAvro truncating f.type nullable raw))
    (record : Value) :
    SameUnless Failure.IsPrecisionLoss (readAvroFields rejecting fields record)
      (readAvroFields truncating fields record) := by
  induction fields with
  | nil => exact .refl _
  | cons f fields ih =>
    rw [readAvroFields, readAvroFields]
    have hfirst := (SameUnless.refl (P := Failure.IsPrecisionLoss) (record.fieldOf f.name)).bind
      fun raw => hfields f List.mem_cons_self f.nullable raw
    refine (hfirst.mapError fun _ => Failure.isPrecisionLoss_inField f.name).bind fun value => ?_
    exact (ih fun f hf => hfields f (List.mem_cons_of_mem _ hf)).bind fun row => .refl _

/-- A native value is read the same way under both policies, unless precision is lost. -/
theorem readAvro_sameUnless (type : FieldType) (nullable : Bool) (value : Value) :
    SameUnless Failure.IsPrecisionLoss (readAvro rejecting type nullable value)
      (readAvro truncating type nullable value) := by
  induction type generalizing nullable value with
  | primitive kind =>
    rw [readAvro, readAvro]
    split
    · exact .refl _
    · exact Avro.readPrimitive_sameUnless kind value
  | array element elementNullable ih =>
    rw [readAvro, readAvro]
    split
    · exact .refl _
    · refine (SameUnless.refl (Avro.toItems _ value)).bind fun items => ?_
      exact (SameUnless.mapM (fun item => ih elementNullable item) items).bind fun _ => .refl _
  | map key valueType valueNullable ihKey ihValue =>
    rw [readAvro, readAvro]
    split
    · exact .refl _
    · refine (SameUnless.refl (Avro.toItems _ value)).bind fun items => ?_
      exact (Value.readEntries_sameUnless (fun raw => ihKey false raw)
        (fun raw => ihValue valueNullable raw) _ [] items).bind fun _ => .refl _
  | row fields ih =>
    rw [readAvro, readAvro]
    split
    · exact .refl _
    · split
      · exact (readAvroFields_sameUnless ih value).bind fun _ => .refl _
      · exact .refl _
  | logical identifier base representation labels ih =>
    rw [readAvro, readAvro]
    split
    · exact .refl _
    · cases representation with
      | timeWithLocalTz => exact Avro.readInstant_sameUnless _ value
      | passThrough => exact ih nullable value
      | _ => exact .refl _
  | unknown kind =>
    rw [readAvro, readAvro]
    exact .refl _

end FieldType

/-! ## Rows of records -/

/-- Cutting instants only ever adds rows to those that are read without: a row that is read when
they are refused is read when they are cut, a record that gives no row when they are cut gives
none when they are refused, and a record that gives a row only when they are cut is refused for a
loss of precision. -/
theorem Row.ofAvro_truncating (schema : Schema) (record : Value) :
    (∀ row, ofAvro rejecting schema record = .ok row →
      ofAvro truncating schema record = .ok row) ∧
    (∀ f, ofAvro truncating schema record = .error f →
      ofAvro rejecting schema record = .error f ∨
        ∃ e, ofAvro rejecting schema record = .error (.conversion e) ∧
          e.code = .precisionLoss) ∧
    (∀ row f, ofAvro truncating schema record = .ok row →
      ofAvro rejecting schema record = .error f →
        ∃ e, f = .conversion e ∧ e.code = .precisionLoss) := by
  have hboth : SameUnless Failure.IsPrecisionLoss (ofAvro rejecting schema record)
      (ofAvro truncating schema record) :=
    FieldType.readAvroFields_sameUnless (fun f _ => FieldType.readAvro_sameUnless f.type) record
  refine ⟨?_, ?_, ?_⟩
  · intro row hrow
    rcases hboth with hsame | ⟨f, hf, _⟩
    · rw [← hsame, hrow]
    · rw [hf] at hrow
      exact absurd hrow (by simp)
  · intro f hf
    rcases hboth with hsame | ⟨_, hlost, e, rfl, hcode⟩
    · exact Or.inl (hsame.trans hf)
    · exact Or.inr ⟨e, hlost, hcode⟩
  · intro row f hrow hf
    rcases hboth with hsame | ⟨g, hlost, hg⟩
    · rw [hsame, hrow] at hf
      exact absurd hf (by simp)
    · obtain rfl := Except.error.inj (hlost.symm.trans hf)
      exact hg

/-- A key that is an instant under another name is too fine; the row is read when it is cut, and
refused otherwise. -/
theorem Row.ofAvro_truncating_key :
    ofAvro truncating [⟨"shown", .map (.passThrough "moment" (.primitive .datetime))
        (.array .timeWithLocalTz false) false, false, none⟩]
      (.record [("shown", .list [.record [("key", .integer 1001),
        ("value", .list [.integer 5000])]])]) =
      .ok [.map [(.instant (Instant.ofMillis 1), .list [.instant (Instant.ofMillis 5)])]] ∧
    ∃ e, ofAvro rejecting [⟨"shown", .map (.passThrough "moment" (.primitive .datetime))
        (.array .timeWithLocalTz false) false, false, none⟩]
      (.record [("shown", .list [.record [("key", .integer 1001),
        ("value", .list [.integer 5000])]])]) = .error (.conversion e) ∧
      e.code = .precisionLoss := by
  let schema : Schema := [⟨"shown", .map (.passThrough "moment" (.primitive .datetime))
    (.array .timeWithLocalTz false) false, false, none⟩]
  let record : Value := .record [("shown", .list [.record [("key", .integer 1001),
    ("value", .list [.integer 5000])]])]
  have hcut : ofAvro truncating schema record =
      .ok [.map [(.instant (Instant.ofMillis 1), .list [.instant (Instant.ofMillis 5)])]] := rfl
  obtain ⟨f, hf⟩ : ∃ f, ofAvro rejecting schema record = .error f := ⟨_, rfl⟩
  obtain ⟨e, rfl, hcode⟩ := (ofAvro_truncating schema record).2.2 _ f hcut hf
  exact ⟨hcut, e, hf, hcode⟩

end WarehouseRows
