import WarehouseRows.Proofs.NumberText
import WarehouseRows.Proofs.RepeatedKeys
import WarehouseRows.Proofs.WrittenMoments

/-!
# Scalars whose texts are read

A value has the shape of a scalar of a type if it is of the sort that the type asks for; whether
the readers have room for it is another matter. The text of such a value is read just if the value
is readable: a number has to be an integer of the width of its kind, a date a day of the calendar,
and the year of an instant or of a date with a time one of four digits. What is read is another
object, or the very scalar that the value is stored as when it is a key, so that readable keys that
are apart stay apart.

## Main definitions

* `FieldType.IsShaped`, `FieldType.IsReadable`: the scalars of a type, and those whose texts are
  read.
* `Value.StandsFor`: what is read for a key.
-/

namespace WarehouseRows

/-! ## Shaped and readable scalars -/

/-- Whether a value is a number. -/
def Value.IsNumber (value : Value) : Prop :=
  ∃ x : Double, value = .number x ∧ x.InNormalForm

/-- Whether a value has the shape of a scalar of a primitive kind; numbers of the kinds with a
fraction are left out. -/
def PrimitiveKind.IsShaped (kind : PrimitiveKind) (value : Value) : Prop :=
  match kind with
  | .byte | .int16 | .int32 => value.IsNumber
  | .int64 => ∃ n, value = .integer n
  | .float32 | .float64 => False
  | .decimal => ∃ d, value = .decimal d
  | .boolean => ∃ b, value = .bool b
  | .string => ∃ s, value = .string s
  | .bytes => ∃ content, value = .bytes content
  | .datetime => ∃ t, value = .instant t

/-- Whether a value has the shape of a scalar of a logical type with a representation. -/
def Representation.IsShaped (representation : Representation) (value : Value) : Prop :=
  match representation with
  | .date => ∃ d, value = .date d ∧ d.IsMade
  | .time => ∃ t, value = .time t ∧ t.InDay
  | .datetime => ∃ x, value = .dateTime x ∧ x.date.IsMade ∧ x.time.InDay
  | .enumeration => value.IsNumber
  | .timeWithLocalTz | .passThrough | .custom | .unknown _ => False

/-- Whether the text of a scalar of a primitive kind, if it has one, is read. -/
def PrimitiveKind.IsReadable (kind : PrimitiveKind) (value : Value) : Prop :=
  match kind with
  | .byte => value.IsBounded 8
  | .int16 => value.IsBounded 16
  | .int32 => value.IsBounded 32
  | .int64 => ∃ n, value = .integer n ∧ fits 64 n = true
  | .datetime => ∃ t, value = .instant t ∧ t.IsFourDigit
  | kind => kind.IsShaped value

/-- Whether the text of a scalar of a logical type, if it has one, is read. -/
def Representation.IsReadable (representation : Representation) (value : Value) : Prop :=
  match representation with
  | .date => ∃ d, value = .date d ∧ d.IsReal
  | .datetime => ∃ x, value = .dateTime x ∧ x.IsLaidOut
  | representation => representation.IsShaped value

/-- Whether a value has the shape of a scalar of a type. -/
def FieldType.IsShaped : FieldType → Value → Prop
  | .primitive kind, value => kind.IsShaped value
  | .logical _ _ representation _, value => representation.IsShaped value
  | _, _ => False

/-- Whether the text of a scalar of a type, if it has one, is read. -/
def FieldType.IsReadable : FieldType → Value → Prop
  | .primitive kind, value => kind.IsReadable value
  | .logical _ _ representation _, value => representation.IsReadable value
  | _, _ => False

/-! ## What is read for a value -/

/-- Whether what is read for a key stands for the key among others: it is what the key is stored
as, or an object, which is no key but itself. -/
def Value.StandsFor (back key : Value) : Prop :=
  back = key.asKey ∨ (back.isAbsent = false ∧ back.isComparable = false)

/-- Keys that are apart are read as keys that are apart. -/
theorem Value.sameKey_of_standsFor {a b back back' : Value} (ha : back.StandsFor a)
    (hb : back'.StandsFor b) (hapart : a.sameKey b = false) :
    back.asKey.sameKey back' = false := by
  rcases hb with rfl | ⟨hpresent, hobject⟩
  · rw [sameKey_asKey, sameKey_comm, sameKey_asKey]
    rcases ha with rfl | ⟨hpresent, hobject⟩
    · rwa [sameKey_asKey, sameKey_comm]
    · exact sameKey_object hpresent hobject b
  · exact sameKey_object hpresent hobject _

theorem Value.isAbsent_of_standsFor {back key : Value} (h : back.StandsFor key)
    (hkey : key.isAbsent = false) : back.isAbsent = false := by
  rcases h with rfl | ⟨hpresent, _⟩
  · cases key with
    | number => rfl
    | _ => exact hkey
  · exact hpresent

/-- Whether the reading of a value succeeds just under a condition, and what is read then stands
for the value. -/
structure ReadJustIf {ε : Type} (condition : Prop) (value : Value) (outcome : Except ε Value) :
    Prop where
  iff : (∃ back, outcome = .ok back) ↔ condition
  standsFor : ∀ back, outcome = .ok back → back.StandsFor value

theorem ReadJustIf.congr {ε : Type} {P Q : Prop} {value : Value} {outcome : Except ε Value}
    (h : ReadJustIf P value outcome) (hiff : P ↔ Q) : ReadJustIf Q value outcome :=
  ⟨h.iff.trans hiff, h.standsFor⟩

/-- A value that satisfies the condition is read. -/
theorem ReadJustIf.of_ok {ε : Type} {condition : Prop} {value back : Value}
    {outcome : Except ε Value} (hread : outcome = .ok back) (hcondition : condition)
    (hback : back.StandsFor value) : ReadJustIf condition value outcome := by
  constructor
  · exact ⟨fun _ => hcondition, fun _ => ⟨back, hread⟩⟩
  · intro back' hback'
    rwa [Except.ok.inj (hback'.symm.trans hread)]

/-- A reader that gives objects only stands back for no key but itself. -/
theorem ReadJustIf.of_objects {ε α : Type} {condition : Prop} {value : Value}
    {outcome : Except ε α} {f : α → Value}
    (hobject : ∀ a, (f a).isAbsent = false ∧ (f a).isComparable = false)
    (h : (∃ a, outcome = .ok a) ↔ condition) : ReadJustIf condition value (outcome.map f) := by
  constructor
  · rw [← h]
    simp only [Outcome.map_eq_ok]
    constructor
    · rintro ⟨_, a, ha, _⟩
      exact ⟨a, ha⟩
    · rintro ⟨a, ha⟩
      exact ⟨f a, a, ha, rfl⟩
  · intro back hback
    obtain ⟨a, _, rfl⟩ := Outcome.map_eq_ok.mp hback
    exact Or.inr (hobject a)

theorem ReadJustIf.mapError {ε ε' : Type} {condition : Prop} {value : Value}
    {outcome : Except ε Value} {f : ε → ε'} (h : ReadJustIf condition value outcome) :
    ReadJustIf condition value (outcome.mapError f) := by
  constructor
  · simpa only [Outcome.mapError_eq_ok] using h.iff
  · intro back hback
    exact h.standsFor back (Outcome.mapError_eq_ok.mp hback)

/-! ## Primitive kinds -/

namespace PrimitiveKind

/-- The text of a number is read at a narrow width just if the number is an integer of this
width. -/
theorem readJustIf_number {kind : PrimitiveKind} {bits : Nat} {value : Value} {text : String}
    (hb : bits ≤ 32) (hshape : value.IsNumber) (hcell : Cell.written value = .ok (.string text)) :
    ReadJustIf (value.IsBounded bits) value (parseBounded kind bits text) := by
  obtain ⟨x, rfl, hx⟩ := hshape
  obtain rfl : x.text = text := Value.string.inj (Except.ok.inj hcell)
  constructor
  · constructor
    · rintro ⟨back, hback⟩
      obtain ⟨n, hwhole, hfits, _⟩ := (parseBounded_text hx hb).mp hback
      exact ⟨x, n, rfl, hwhole, hfits⟩
    · rintro ⟨y, n, hsame, hwhole, hfits⟩
      obtain rfl := Value.number.inj hsame
      exact ⟨_, (parseBounded_text hx hb).mpr ⟨n, hwhole, hfits, rfl⟩⟩
  · intro back hback
    obtain ⟨n, hwhole, _, rfl⟩ := (parseBounded_text hx hb).mp hback
    left
    rw [Value.asKey, Double.asKey_of_whole hx hwhole]

/-- The text of an integer is read at the greatest width just if the integer has this width. -/
theorem readJustIf_integer (n : Int) :
    ReadJustIf (∃ m, Value.integer n = .integer m ∧ fits 64 m = true) (.integer n)
      (parseLong (toString n)) := by
  by_cases hfits : fits 64 n = true
  · exact ReadJustIf.of_ok (parseLong_of_fits hfits) ⟨n, rfl, hfits⟩ (Or.inl rfl)
  · have hrefused : parseLong (toString n) = .error (invalid .int64 (toString n)) := by
      rw [parseLong_toString, if_neg hfits]
    rw [hrefused]
    constructor
    · constructor
      · rintro ⟨back, hback⟩
        exact absurd hback (by simp)
      · rintro ⟨m, hsame, hm⟩
        obtain rfl := Value.integer.inj hsame
        exact absurd hm hfits
    · intro back hback
      exact absurd hback (by simp)

/-- The text of an instant is read just if the year of the instant has four digits; an instant
that is invalid has no text. -/
theorem readJustIf_instant {t : Instant} {text : String}
    (hcell : Cell.ofPrimitive .datetime (.instant t) = .ok (.string text)) :
    ReadJustIf (∃ t', Value.instant t = .instant t' ∧ t'.IsFourDigit) (.instant t)
      (parseInstant text) := by
  cases t with
  | invalid =>
    have hrefused : ∃ e, Cell.ofPrimitive .datetime (.instant .invalid) = .error e := ⟨_, rfl⟩
    obtain ⟨e, he⟩ := hrefused
    exact absurd (he.symm.trans hcell) (by simp)
  | «at» millis =>
    obtain rfl : String.ofList (Timestamp.chars millis) = text :=
      Value.string.inj (Except.ok.inj hcell)
    constructor
    · rw [exists_parseInstant_chars]
      simp
    · intro back hback
      obtain ⟨millis', hsame, h0, h1⟩ := exists_parseInstant_chars.mp ⟨back, hback⟩
      obtain rfl := Instant.at.inj hsame
      obtain rfl := Except.ok.inj ((parseInstant_chars h0 h1).symm.trans hback)
      exact Or.inr ⟨rfl, rfl⟩

/-- The text of a scalar is read just if the scalar is readable. -/
theorem readJustIf_parseText {kind : PrimitiveKind} {value : Value} {text : String}
    (hshape : kind.IsShaped value) (hcell : Cell.ofPrimitive kind value = .ok (.string text)) :
    ReadJustIf (kind.IsReadable value) value (kind.parseText text) := by
  cases kind with
  | byte | int16 | int32 => exact readJustIf_number (by decide) hshape hcell
  | int64 =>
    obtain ⟨n, rfl⟩ := hshape
    obtain rfl : toString n = text := Value.string.inj (Except.ok.inj hcell)
    exact readJustIf_integer n
  | float32 | float64 => exact absurd hshape id
  | decimal =>
    obtain ⟨d, rfl⟩ := hshape
    obtain ⟨s, htext, hs⟩ := Outcome.map_eq_ok.mp hcell
    obtain rfl := Value.string.inj hs
    have hread := Decimal.exists_parse_of_text htext
    exact ReadJustIf.of_objects (fun _ => ⟨rfl, rfl⟩) ⟨fun _ => ⟨d, rfl⟩, fun _ => hread⟩
  | boolean =>
    obtain ⟨b, rfl⟩ := hshape
    obtain rfl : (if b then "true" else "false") = text := Value.string.inj (Except.ok.inj hcell)
    have hread : parseText .boolean (if b then "true" else "false") = .ok (.bool b) := by
      rw [parseText, isTrueWord_text]
    exact ReadJustIf.of_ok hread ⟨b, rfl⟩ (Or.inl rfl)
  | string =>
    obtain ⟨s, rfl⟩ := hshape
    obtain rfl : s = text := Value.string.inj (Except.ok.inj hcell)
    exact ReadJustIf.of_ok rfl ⟨s, rfl⟩ (Or.inl rfl)
  | bytes =>
    obtain ⟨content, rfl⟩ := hshape
    obtain rfl : Base64.encode content = text := Value.string.inj (Except.ok.inj hcell)
    have hread : parseText .bytes (Base64.encode content) = .ok (.bytes content) := by
      simp only [parseText, parseBytes, Base64.decode?_encode]
    exact ReadJustIf.of_ok hread ⟨content, rfl⟩ (Or.inr ⟨rfl, rfl⟩)
  | datetime =>
    obtain ⟨t, rfl⟩ := hshape
    exact readJustIf_instant hcell

end PrimitiveKind

/-! ## Logical types -/

namespace Representation

/-- A number that has a label is the ordinal of the label. -/
theorem exists_ordinal {labels : Option (List String)} {x : Double} {label : String}
    (h : Cell.label? labels (.number x) = some label) :
    ∃ i : Nat, x.whole? = some (i : Int) ∧
      ∃ hi : i < (labels.getD []).length, (labels.getD [])[i] = label := by
  simp only [Cell.label?] at h
  split at h
  · rename_i n hwhole
    split at h
    · rename_i hnonneg
      obtain ⟨hi, hlabel⟩ := List.getElem?_eq_some_iff.mp h
      refine ⟨n.toNat, ?_, hi, hlabel⟩
      rw [hwhole, Int.toNat_of_nonneg hnonneg]
    · exact absurd h (by simp)
  · exact absurd h (by simp)

/-- The label of an ordinal is read as the ordinal, if no other ordinal has this label. -/
theorem readJustIf_label {type : FieldType} {labels : Option (List String)} {value : Value}
    {text : String} (hnodup : (labels.getD []).Nodup) (hshape : value.IsNumber)
    (hcell : Cell.ofOrdinal type labels value = .ok (.string text)) :
    ReadJustIf value.IsNumber value (Cell.parseLabel type labels text) := by
  obtain ⟨x, rfl, hx⟩ := hshape
  rw [Cell.ofOrdinal] at hcell
  split at hcell
  · rename_i label hlabel
    obtain rfl : label = text := Value.string.inj (Except.ok.inj hcell)
    obtain ⟨i, hwhole, hi, rfl⟩ := exists_ordinal hlabel
    refine ReadJustIf.of_ok (parseLabel_getElem hnodup hi) ⟨x, rfl, hx⟩ ?_
    left
    rw [Value.asKey, Double.asKey_of_whole hx hwhole]
    rfl
  · obtain ⟨_, _, h⟩ := Outcome.bind_eq_ok.mp hcell
    exact absurd h (by simp)

/-- The text of a scalar is read just if the scalar is readable. -/
theorem exists_readJustIf (identifier : String) (base : FieldType) {representation : Representation}
    {labels : Option (List String)} {value : Value} {text : String}
    (hlabels : representation = .enumeration → (labels.getD []).Nodup)
    (hshape : representation.IsShaped value)
    (hcell : Cell.ofLogical (.logical identifier base representation labels) representation labels
      value = .ok (.string text)) :
    ∃ outcome, Cell.parseScalar (.logical identifier base representation labels) text =
        outcome.map some ∧
      ReadJustIf (representation.IsReadable value) value outcome := by
  cases representation with
  | date =>
    obtain ⟨d, rfl, hmade⟩ := hshape
    obtain rfl : d.text = text := Value.string.inj (Except.ok.inj hcell)
    refine ⟨((LocalDate.parse d.text).map .date).mapError .conversion, ?_, ?_⟩
    · rw [Cell.parseScalar]
      cases LocalDate.parse d.text <;> rfl
    · apply ReadJustIf.mapError
      apply ReadJustIf.of_objects fun _ => ⟨rfl, rfl⟩
      rw [LocalDate.exists_parse_text hmade]
      simp [IsReadable]
  | time =>
    obtain ⟨t, rfl, hday⟩ := hshape
    obtain rfl : t.format = text := Value.string.inj (Except.ok.inj hcell)
    refine ⟨.ok (.time t.cut), ?_, ?_⟩
    · rw [Cell.parseScalar, LocalTime.parse_format_cut hday]
      rfl
    · exact ReadJustIf.of_ok rfl ⟨t, rfl, hday⟩ (Or.inr ⟨rfl, rfl⟩)
  | datetime =>
    obtain ⟨x, rfl, hmade, hday⟩ := hshape
    obtain rfl : x.format = text := Value.string.inj (Except.ok.inj hcell)
    refine ⟨((LocalDateTime.parseFixed x.format).map .dateTime).mapError .conversion, ?_, ?_⟩
    · rw [Cell.parseScalar]
      cases LocalDateTime.parseFixed x.format <;> rfl
    · apply ReadJustIf.mapError
      apply ReadJustIf.of_objects fun _ => ⟨rfl, rfl⟩
      rw [LocalDateTime.exists_parseFixed_format hmade hday]
      simp [IsReadable]
  | enumeration =>
    refine ⟨_, ?_, readJustIf_label (hlabels rfl) hshape hcell⟩
    rw [Cell.parseScalar]
  | timeWithLocalTz | passThrough | custom | unknown => exact absurd hshape id

end Representation

/-! ## Presence -/

theorem PrimitiveKind.isAbsent_of_isShaped {kind : PrimitiveKind} {value : Value}
    (h : kind.IsShaped value) : value.isAbsent = false := by
  cases kind with
  | byte | int16 | int32 =>
    obtain ⟨_, rfl, _⟩ := h
    rfl
  | int64 | decimal | boolean | string | bytes | datetime =>
    obtain ⟨_, rfl⟩ := h
    rfl
  | float32 | float64 => exact absurd h id

theorem Representation.isAbsent_of_isShaped {representation : Representation} {value : Value}
    (h : representation.IsShaped value) : value.isAbsent = false := by
  cases representation with
  | date | time | datetime | enumeration =>
    obtain ⟨_, rfl, _⟩ := h
    rfl
  | timeWithLocalTz | passThrough | custom | unknown => exact absurd h id

end WarehouseRows
