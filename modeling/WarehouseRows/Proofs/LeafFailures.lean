import WarehouseRows.Avro.Reader
import WarehouseRows.Proofs.PlacelessFailures
import WarehouseRows.Proofs.Typing
import WarehouseRows.Row.Encode
import WarehouseRows.Row.Parse

/-!
# What fails below rows

The converters take the values without parts apart by functions of their own, one for each kind of
value: readers of text, readers of native values, writers of cells. None of them names a field when
it fails, and neither does the look-up of a field or the refusal of a key.
-/

namespace WarehouseRows

open Outcome (Ends)

/-! ## Look-up -/

namespace Value

theorem placeless_answer {v : Value} {name : String} {x : Except Failure Value}
    (h : v.answer? name = some x) : Outcome.Placeless x := by
  rw [answer?] at h
  split at h
  · obtain rfl := Option.some.inj h
    exact trivial
  · obtain ⟨k, _, hk⟩ := List.exists_of_findSome?_eq_some h
    rw [answerOf] at hk
    split at hk
    · obtain rfl := Option.some.inj hk
      exact trivial
    · split at hk
      · obtain rfl := Option.some.inj hk
        split <;> trivial
      · split at hk
        · obtain rfl := Option.some.inj hk
          exact trivial
        · split at hk
          · obtain rfl := Option.some.inj hk
            exact trivial
          · obtain ⟨_, _, rfl⟩ := Option.map_eq_some_iff.mp hk
            exact trivial

theorem placeless_fieldOf (v : Value) (name : String) : Outcome.Placeless (v.fieldOf name) := by
  have hanswer : Outcome.Placeless ((v.answer? name).getD (.ok .missing)) := by
    cases h : v.answer? name with
    | none => trivial
    | some x => exact placeless_answer h
  cases v with
  | null | missing => exact rfl
  | _ => exact hanswer

theorem placeless_duplicateKey (type : FieldType) (key : Value) :
    (duplicateKey type key).Placeless := by
  rw [duplicateKey]
  split
  · exact rfl
  · rename_i h
    exact (placeless_text key).error h

end Value

/-! ## Readers of text -/

/-- Whether an outcome, if it is a conversion error, names no field. -/
abbrev Outcome.PlacelessError {α : Type} (x : Except ConversionError α) : Prop :=
  Ends ConversionError.Placeless (fun _ => True) x

theorem Outcome.placeless_mapError {α : Type} {x : Except ConversionError α}
    (h : Outcome.PlacelessError x) : Outcome.Placeless (x.mapError .conversion) :=
  h.mapError fun _ he => he

theorem LocalDate.placeless_parse (text : String) :
    Outcome.PlacelessError (LocalDate.parse text) := by
  rw [parse]
  split <;> trivial

theorem LocalTime.placeless_parse (text : String) :
    Outcome.PlacelessError (LocalTime.parse text) := by
  rw [parse]
  split <;> trivial

theorem LocalTime.placeless_ofNanoOfDay (nanos : Double) :
    Outcome.PlacelessError (LocalTime.ofNanoOfDay nanos) := by
  rw [ofNanoOfDay, ofNanoOfDay.outOfRange]
  split
  · trivial
  · split <;> trivial
  · trivial

theorem LocalDateTime.placeless_ofTexts (dateText timeText : String) :
    Outcome.PlacelessError (do
      let date ← LocalDate.parse dateText
      let time ← LocalTime.parse timeText
      pure (⟨date, time⟩ : LocalDateTime)) :=
  Ends.bind (LocalDate.placeless_parse dateText) fun _ _ =>
    Ends.bind (LocalTime.placeless_parse timeText) fun _ _ => trivial

theorem LocalDateTime.placeless_parse (text : String) :
    Outcome.PlacelessError (LocalDateTime.parse text) := by
  rw [parse]
  split
  · trivial
  · exact placeless_ofTexts _ _

theorem LocalDateTime.placeless_parseFixed (text : String) :
    Outcome.PlacelessError (LocalDateTime.parseFixed text) := by
  rw [parseFixed]
  split
  · exact placeless_ofTexts _ _
  · trivial

theorem Timestamp.placeless_parse (text : String) :
    Outcome.PlacelessError (Timestamp.parse text) := by
  rw [parse]
  split <;> trivial

theorem Timestamp.placeless_parseEpochSeconds (text : String) :
    Outcome.PlacelessError (Timestamp.parseEpochSeconds text) := by
  unfold parseEpochSeconds
  extract_lets seconds
  split <;> trivial

theorem Timestamp.placeless_format (t : Instant) : Outcome.PlacelessError (Timestamp.format t) := by
  cases t <;> trivial

theorem Decimal.placeless_parse (text : String) : Outcome.PlacelessError (Decimal.parse text) := by
  rw [parse]
  split <;> trivial

namespace PrimitiveKind

theorem placeless_parseBounded (kind : PrimitiveKind) (bits : Nat) (text : String) :
    Outcome.PlacelessError (parseBounded kind bits text) := by
  unfold parseBounded
  extract_lets x
  split
  · split <;> trivial
  · trivial

theorem placeless_parseText (kind : PrimitiveKind) (text : String) :
    Outcome.PlacelessError (kind.parseText text) := by
  cases kind with
  | byte | int16 | int32 => exact placeless_parseBounded _ _ text
  | int64 =>
    rw [parseText, parseLong]
    split
    · dsimp only
      split <;> trivial
    · trivial
  | float32 | float64 =>
    rw [parseText, parseFloat]
    split <;> trivial
  | decimal => exact (Decimal.placeless_parse text).map fun _ _ => trivial
  | boolean | string => trivial
  | bytes =>
    rw [parseText, parseBytes]
    split <;> trivial
  | datetime =>
    rw [parseText, parseInstant]
    split
    · trivial
    · split
      · exact (Timestamp.placeless_parse text).map fun _ _ => trivial
      · exact (Timestamp.placeless_parseEpochSeconds text).map fun _ _ => trivial

end PrimitiveKind

/-! ## Readers of native values -/

namespace Avro

theorem placeless_toLong (type : FieldType) (value : Value) :
    Outcome.Placeless (toLong type value) := by
  unfold toLong
  split
  · trivial
  · split <;> trivial
  · trivial

theorem placeless_toBytes (type : FieldType) (value : Value) :
    Outcome.Placeless (toBytes type value) := by
  have hnoCopy : (noCopy value).Placeless := by
    rw [noCopy]
    split
    · rfl
    · split <;> rfl
  unfold toBytes
  split
  · trivial
  · trivial
  · split
    · exact hnoCopy
    · rfl

theorem placeless_toText (type : FieldType) (value : Value) :
    Outcome.Placeless (toText type value) := by
  unfold toText
  split
  · trivial
  · trivial
  · split <;> rfl

theorem placeless_readInstant (type : FieldType) (options : ConversionOptions) (value : Value) :
    Outcome.Placeless (readInstant type options value) := by
  refine (placeless_toLong type value).bind fun micros _ => ?_
  split
  · trivial
  · split <;> trivial
  · trivial

theorem placeless_readPrimitive (kind : PrimitiveKind) (options : ConversionOptions)
    (value : Value) : Outcome.Placeless (readPrimitive kind options value) := by
  cases kind with
  | byte | int16 | int32 | int64 => exact (placeless_toLong _ value).map fun _ _ => trivial
  | float32 | float64 | boolean =>
    simp only [readPrimitive]
    split <;> trivial
  | string => exact (placeless_toText _ value).map fun _ _ => trivial
  | bytes | decimal => exact (placeless_toBytes _ value).map fun _ _ => trivial
  | datetime => exact placeless_readInstant _ options value

theorem placeless_readDate (type : FieldType) (value : Value) :
    Outcome.Placeless (readDate type value) := by
  unfold readDate
  split
  · split <;> trivial
  · trivial

theorem placeless_readTime (type : FieldType) (value : Value) :
    Outcome.Placeless (readTime type value) := by
  refine (placeless_toLong type value).bind fun micros _ => ?_
  exact Outcome.placeless_mapError ((LocalTime.placeless_ofNanoOfDay _).map fun _ _ => trivial)

theorem placeless_readDateTime (type : FieldType) (value : Value) :
    Outcome.Placeless (readDateTime type value) := by
  refine (placeless_toText type value).bind fun text _ => ?_
  exact Outcome.placeless_mapError ((LocalDateTime.placeless_parse text).map fun _ _ => trivial)

theorem placeless_readAbsent (type : FieldType) (nullable : Bool) :
    Outcome.Placeless (readAbsent type nullable) := by
  rw [readAbsent]
  split <;> trivial

theorem placeless_splitEntry (type : FieldType) (item : Value) :
    Outcome.Placeless (splitEntry type item) := by
  rw [splitEntry]
  split
  · split <;> trivial
  · trivial

end Avro

/-! ## Readers of cells -/

namespace Cell

theorem placeless_parseMissing (type : FieldType) (nullable : Bool) :
    Outcome.Placeless (parseMissing type nullable) := by
  rw [parseMissing]
  split <;> trivial

theorem placeless_parseLabel (type : FieldType) (labels : Option (List String)) (text : String) :
    Outcome.Placeless (parseLabel type labels text) := by
  rw [parseLabel]
  split <;> trivial

theorem placeless_parseScalar (type : FieldType) (text : String) :
    Outcome.Placeless (parseScalar type text) := by
  induction type with
  | primitive kind =>
    rw [parseScalar]
    exact Outcome.placeless_mapError ((kind.placeless_parseText text).map fun _ _ => trivial)
  | logical identifier base representation labels ih =>
    cases representation with
    | datetime =>
      rw [parseScalar]
      exact Outcome.placeless_mapError
        ((LocalDateTime.placeless_parseFixed text).map fun _ _ => trivial)
    | date =>
      rw [parseScalar]
      exact Outcome.placeless_mapError ((LocalDate.placeless_parse text).map fun _ _ => trivial)
    | time =>
      rw [parseScalar]
      exact Outcome.placeless_mapError ((LocalTime.placeless_parse text).map fun _ _ => trivial)
    | passThrough =>
      rw [parseScalar]
      exact ih
    | enumeration =>
      rw [parseScalar]
      exact (placeless_parseLabel _ labels text).map fun _ _ => trivial
    | timeWithLocalTz | custom | unknown => trivial
  | array | map | row | unknown => trivial

theorem placeless_parseText (type : FieldType) (nullable : Bool) (value : Value) (text : String) :
    Outcome.Placeless (parseText type nullable value text) := by
  refine (placeless_parseScalar type text).bind fun parsed _ => ?_
  split
  · split
    · exact placeless_parseMissing type nullable
    · trivial
  · trivial

theorem placeless_splitEntry (type : FieldType) (item : Value) :
    Outcome.Placeless (splitEntry type item) := by
  rw [splitEntry]
  split <;> trivial

/-! ## Writers of cells -/

theorem placeless_noInstant (operation : String) {refusal : Value → Failure}
    (hrefusal : ∀ v, ∃ message, refusal v = .other "TypeError" message) (value : Value) :
    (noInstant operation refusal value).Placeless := by
  unfold noInstant
  split
  · rfl
  · rfl
  · split
    · obtain ⟨message, h⟩ := hrefusal value
      rw [h]
      rfl
    · rfl

theorem placeless_instantText (value : Value) : Outcome.Placeless (instantText value) := by
  unfold instantText
  split
  · exact Outcome.placeless_mapError (Timestamp.placeless_format _)
  · exact placeless_noInstant _ (fun _ => ⟨_, rfl⟩) value

theorem placeless_textOf (value : Value) : Outcome.Placeless (textOf value) := by
  unfold textOf
  split
  · split <;> trivial
  · split
    · exact placeless_noInstant _ (fun _ => ⟨_, rfl⟩) value
    · exact value.placeless_text

theorem placeless_operand (value : Value) : value.operand.Placeless :=
  value.placeless_text

theorem placeless_parts (value : Value) : Parts.Placeless value.parts :=
  fun name => placeless_operand (value.member name)

theorem placeless_ownText (value : Value) : Outcome.Placeless (ownText value) :=
  Operand.placeless_spoken "value" (placeless_operand value)

theorem placeless_dateText (value : Value) : Outcome.Placeless (dateText value) := by
  unfold dateText
  split
  · trivial
  · exact placeless_ownText value

theorem placeless_timeText (value : Value) : Outcome.Placeless (timeText value) := by
  unfold timeText
  split
  · rfl
  · rfl
  · trivial
  · exact LocalTime.placeless_formatOfParts (placeless_parts value)

theorem placeless_dateTimeText (value : Value) : Outcome.Placeless (dateTimeText value) := by
  unfold dateTimeText
  split
  · rfl
  · rfl
  · trivial
  · exact (Operand.placeless_spoken _ (placeless_parts value "date")).bind fun _ _ =>
      (placeless_timeText _).bind fun _ _ => trivial

theorem placeless_decimalText (value : Value) : Outcome.Placeless (decimalText value) := by
  unfold decimalText
  split
  · exact Decimal.placeless_text _
  · split
    · exact placeless_ownText value
    · exact placeless_textOf value

theorem placeless_bytesText (value : Value) : Outcome.Placeless (bytesText value) := by
  unfold bytesText
  split
  · trivial
  · have hasked : ∀ (name : String) (_ : PUnit), Outcome.Placeless (do
        let _ ← value.fieldOf name
        pure (ForInStep.yield PUnit.unit)) :=
      fun name _ => (value.placeless_fieldOf name).bind fun _ _ => trivial
    exact (Ends.forIn hasked).bind fun _ _ => rfl

theorem placeless_written (value : Value) : Outcome.Placeless (written value) :=
  (placeless_textOf value).map fun _ _ => trivial

theorem placeless_ofSort (sort : Archetype) {format : Value → Except Failure String}
    (hformat : ∀ v, Outcome.Placeless (format v)) (type : FieldType) (value : Value) :
    Outcome.Placeless (ofSort sort format type value) := by
  rw [ofSort]
  split
  · exact (hformat value).map fun _ _ => trivial
  · rfl

theorem placeless_ofPrimitive (kind : PrimitiveKind) (value : Value) :
    Outcome.Placeless (ofPrimitive kind value) := by
  unfold ofPrimitive
  split
  · exact placeless_ofSort _ placeless_instantText _ value
  · exact placeless_ofSort _ placeless_bytesText _ value
  · trivial
  · exact (placeless_decimalText value).map fun _ _ => trivial
  · exact placeless_written value

theorem placeless_ofLogical (type : FieldType) (representation : Representation)
    (labels : Option (List String)) (value : Value) :
    Outcome.Placeless (ofLogical type representation labels value) := by
  cases representation with
  | date => exact placeless_ofSort _ placeless_dateText type value
  | time => exact placeless_ofSort _ placeless_timeText type value
  | datetime => exact placeless_ofSort _ placeless_dateTimeText type value
  | enumeration =>
    rw [ofLogical, ofOrdinal]
    split
    · trivial
    · exact (placeless_textOf value).bind fun _ _ => rfl
  | timeWithLocalTz | passThrough | custom => exact placeless_written value
  | unknown name => rfl

theorem placeless_ofNull (type : FieldType) (nullable : Bool) :
    Outcome.Placeless (ofNull type nullable) := by
  rw [ofNull]
  split <;> trivial

theorem placeless_noEntries (type : FieldType) (value : Value) :
    (noEntries type value).Placeless := by
  rw [noEntries]
  split <;> rfl

end Cell

end WarehouseRows
