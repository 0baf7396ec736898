import WarehouseRows.Row.Encode
import WarehouseRows.Row.Parse
import WarehouseRows.Proofs.Base64
import WarehouseRows.Proofs.IntegerText
import WarehouseRows.Proofs.Plain
import WarehouseRows.Proofs.Typing

/-!
# Scalars read back from their text

A scalar is exact if its text has room for all of it: an integer of the width of its kind,
an instant of a year of four digits, a time of whole microseconds, a decimal whose text is
not too long. The cell of an exact scalar is a text, and the text is read as the scalar.

## Main definitions

* `FieldType.IsExact`: the exact scalars of a type.
-/

namespace WarehouseRows

/-! ## Exact scalars -/

/-- Whether a value is an integer of a width, as the number that the integer is. -/
def Value.IsInteger (bits : Nat) (value : Value) : Prop :=
  ∃ n, value = .number (Double.ofInt n) ∧ PrimitiveKind.fits bits n = true

/-- Whether an instant falls into the years from 0 to 9999. -/
def Instant.IsFourDigit (t : Instant) : Prop :=
  ∃ millis, t = .at millis ∧ 0 ≤ (clock millis).date.year ∧ (clock millis).date.year ≤ 9999

/-- Whether a value is an exact scalar of a primitive kind. -/
def PrimitiveKind.IsExact (kind : PrimitiveKind) (value : Value) : Prop :=
  match kind with
  | .byte => value.IsInteger 8
  | .int16 => value.IsInteger 16
  | .int32 => value.IsInteger 32
  | .int64 => ∃ n, value = .integer n ∧ PrimitiveKind.fits 64 n = true
  | .float32 | .float64 => False
  | .decimal => ∃ d, value = .decimal d ∧ d.IsPrintable
  | .boolean => ∃ b, value = .bool b
  | .string => ∃ s, value = .string s
  | .bytes => ∃ content, value = .bytes content
  | .datetime => ∃ t, value = .instant t ∧ t.IsFourDigit

/-- Whether a value is an exact scalar of a logical type with a representation. -/
def Representation.IsExact (representation : Representation) (labels : Option (List String))
    (value : Value) : Prop :=
  match representation with
  | .date => ∃ d, value = .date d ∧ d.IsReal
  | .time => ∃ t, value = .time t ∧ t.InDay ∧ t.nano.toInt % 1000 = 0
  | .datetime => ∃ x, value = .dateTime x ∧ x.IsFixable
  | .enumeration =>
    ∃ i : Nat, value = .number (Double.ofNat i) ∧ (Double.ofNat i).whole? = some (i : Int) ∧
      i < (labels.getD []).length
  | .timeWithLocalTz | .passThrough | .custom | .unknown _ => False

/-- Whether a value is an exact scalar of a type. -/
def FieldType.IsExact : FieldType → Value → Prop
  | .primitive kind, value => kind.IsExact value
  | .logical _ _ representation labels, value => representation.IsExact labels value
  | _, _ => False

/-! ## Presence and keys -/

/-- The number that an integer is stays the same when it is stored as a key. -/
theorem Value.asKey_ofInt {n : Int} (h : (Double.ofInt n).whole? = some n) :
    (Value.number (Double.ofInt n)).asKey = .number (Double.ofInt n) := by
  rw [Value.asKey]
  by_cases hzero : (Double.ofInt n).isZero = true
  · obtain rfl : 0 = n := Option.some.inj ((Double.whole?_of_isZero hzero).symm.trans h)
    rw [if_pos hzero]
    rfl
  · rw [if_neg hzero]

theorem Value.asKey_of_isInteger {bits : Nat} {value : Value} (hb : bits ≤ 53)
    (h : value.IsInteger bits) : value.asKey = value := by
  obtain ⟨n, rfl, hn⟩ := h
  exact asKey_ofInt (Double.whole?_ofInt (PrimitiveKind.natAbs_lt_of_fits hb hn))

theorem PrimitiveKind.isAbsent_of_isExact {kind : PrimitiveKind} {value : Value}
    (h : kind.IsExact value) : value.isAbsent = false := by
  cases kind with
  | byte | int16 | int32 | int64 | decimal | datetime =>
    obtain ⟨_, rfl, _⟩ := h
    rfl
  | boolean | string | bytes =>
    obtain ⟨_, rfl⟩ := h
    rfl
  | float32 | float64 => exact absurd h id

theorem PrimitiveKind.asKey_of_isExact {kind : PrimitiveKind} {value : Value}
    (h : kind.IsExact value) : value.asKey = value := by
  cases kind with
  | byte | int16 | int32 => exact Value.asKey_of_isInteger (by decide) h
  | int64 | decimal | datetime =>
    obtain ⟨_, rfl, _⟩ := h
    rfl
  | boolean | string | bytes =>
    obtain ⟨_, rfl⟩ := h
    rfl
  | float32 | float64 => exact absurd h id

theorem Representation.isAbsent_of_isExact {representation : Representation}
    {labels : Option (List String)} {value : Value} (h : representation.IsExact labels value) :
    value.isAbsent = false := by
  cases representation with
  | date | time | datetime | enumeration =>
    obtain ⟨_, rfl, _⟩ := h
    rfl
  | timeWithLocalTz | passThrough | custom | unknown => exact absurd h id

theorem Representation.asKey_of_isExact {representation : Representation}
    {labels : Option (List String)} {value : Value} (h : representation.IsExact labels value) :
    value.asKey = value := by
  cases representation with
  | enumeration =>
    obtain ⟨i, rfl, hwhole, _⟩ := h
    exact Value.asKey_ofInt hwhole
  | date | time | datetime =>
    obtain ⟨_, rfl, _⟩ := h
    rfl
  | timeWithLocalTz | passThrough | custom | unknown => exact absurd h id

/-! ## Plain scalars -/

theorem PrimitiveKind.same_plain {kind : PrimitiveKind} {value : Value}
    (h : kind.IsExact value) : value.plain.Same value := by
  cases kind with
  | byte | int16 | int32 | int64 | datetime =>
    obtain ⟨_, rfl, _⟩ := h
    exact rfl
  | decimal =>
    obtain ⟨d, rfl, _⟩ := h
    exact d.same_plain
  | boolean | string | bytes =>
    obtain ⟨_, rfl⟩ := h
    exact rfl
  | float32 | float64 => exact absurd h id

theorem Representation.same_plain {representation : Representation}
    {labels : Option (List String)} {value : Value} (h : representation.IsExact labels value) :
    value.plain.Same value := by
  cases representation with
  | date =>
    obtain ⟨d, rfl, hreal⟩ := h
    exact LocalDate.same_plain hreal
  | time =>
    obtain ⟨t, rfl, _⟩ := h
    exact t.same_plain
  | datetime =>
    obtain ⟨x, rfl, hfixable⟩ := h
    exact LocalDateTime.same_plain hfixable.real
  | enumeration =>
    obtain ⟨i, rfl, _⟩ := h
    exact rfl
  | timeWithLocalTz | passThrough | custom | unknown => exact absurd h id

/-! ## Primitive kinds -/

namespace PrimitiveKind

theorem ofPrimitive_integer {bits : Nat} {kind : PrimitiveKind} {n : Int} (hb : bits ≤ 53)
    (hkind : kind = .byte ∨ kind = .int16 ∨ kind = .int32) (h : fits bits n = true) :
    Cell.ofPrimitive kind (.number (Double.ofInt n)) = .ok (.string (toString n)) := by
  have htext : (Double.ofInt n).text = toString n :=
    Double.text_ofInt (natAbs_lt_of_fits hb h)
  have hwritten : Cell.written (.number (Double.ofInt n)) = .ok (.string (toString n)) := by
    rw [← htext]
    rfl
  rcases hkind with rfl | rfl | rfl <;> exact hwritten

theorem isEmpty_ofList {cs : List Char} (h : cs ≠ []) : (String.ofList cs).isEmpty = false := by
  rw [String.isEmpty, beq_eq_false_iff_ne]
  intro hzero
  have hempty := congrArg String.toList (String.utf8ByteSize_eq_zero_iff.mp hzero)
  exact h (by simpa using hempty)

/-- Text that ends in the mark of the fixed format is read by the format. -/
theorem parseInstant_of_suffix {front : List Char} :
    parseInstant (String.ofList (front ++ " UTC".toList)) =
      (Timestamp.parse (String.ofList (front ++ " UTC".toList))).map .instant := by
  have hne : (String.ofList (front ++ " UTC".toList)).isEmpty = false := isEmpty_ofList (by simp)
  have hend : endsInUtc (String.ofList (front ++ " UTC".toList)).toList = true := by
    rw [String.toList_ofList, endsInUtc, List.isSuffixOf_iff_suffix]
    exact ⟨front ++ [' '], by simp⟩
  rw [parseInstant, hne, if_neg Bool.false_ne_true, if_pos hend]

/-- An instant in a year of four digits is read back from its text. -/
theorem parseInstant_chars {millis : Int} (h0 : 0 ≤ (Instant.clock millis).date.year)
    (h1 : (Instant.clock millis).date.year ≤ 9999) :
    parseInstant (String.ofList (Timestamp.chars millis)) = .ok (.instant (.at millis)) := by
  obtain ⟨front, hfront⟩ : ∃ front, Timestamp.chars millis = front ++ " UTC".toList :=
    ⟨_, rfl⟩
  have hparse := Timestamp.parse_format h0 h1
  rw [hfront] at hparse ⊢
  rw [parseInstant_of_suffix, hparse]
  rfl

/-- The text of a truth value is the word for true just if the value is true. -/
theorem isTrueWord_text (b : Bool) : isTrueWord (if b then "true" else "false") = b := by
  cases b <;> decide

/-- The cell of an exact scalar is a text that its kind reads as the scalar. -/
theorem exists_text {kind : PrimitiveKind} {value : Value} (h : kind.IsExact value) :
    ∃ text, Cell.ofPrimitive kind value = .ok (.string text) ∧
      kind.parseText text = .ok value.plain := by
  cases kind with
  | byte =>
    obtain ⟨n, rfl, hn⟩ := h
    exact ⟨toString n, ofPrimitive_integer (by decide) (by simp) hn, parseBounded_of_fits (by decide) hn⟩
  | int16 =>
    obtain ⟨n, rfl, hn⟩ := h
    exact ⟨toString n, ofPrimitive_integer (by decide) (by simp) hn, parseBounded_of_fits (by decide) hn⟩
  | int32 =>
    obtain ⟨n, rfl, hn⟩ := h
    exact ⟨toString n, ofPrimitive_integer (by decide) (by simp) hn, parseBounded_of_fits (by decide) hn⟩
  | int64 =>
    obtain ⟨n, rfl, hn⟩ := h
    exact ⟨toString n, rfl, parseLong_of_fits hn⟩
  | float32 | float64 => exact absurd h id
  | decimal =>
    obtain ⟨d, rfl, hd⟩ := h
    obtain ⟨text, htext, hparse⟩ := Decimal.exists_text hd
    refine ⟨text, ?_, ?_⟩
    · simp only [Cell.ofPrimitive, Cell.decimalText, htext]
      rfl
    · simp only [parseText, hparse]
      rfl
  | boolean =>
    obtain ⟨b, rfl⟩ := h
    refine ⟨if b then "true" else "false", rfl, ?_⟩
    rw [parseText, isTrueWord_text]
    rfl
  | string =>
    obtain ⟨s, rfl⟩ := h
    exact ⟨s, rfl, rfl⟩
  | bytes =>
    obtain ⟨content, rfl⟩ := h
    refine ⟨Base64.encode content, rfl, ?_⟩
    simp only [parseText, parseBytes, Base64.decode?_encode]
    rfl
  | datetime =>
    obtain ⟨t, rfl, millis, rfl, h0, h1⟩ := h
    exact ⟨String.ofList (Timestamp.chars millis), rfl, parseInstant_chars h0 h1⟩

end PrimitiveKind

/-! ## Logical types -/

namespace Representation

/-- The label at an ordinal. -/
theorem label?_ofNat {labels : Option (List String)} {i : Nat}
    (hwhole : (Double.ofNat i).whole? = some (i : Int)) (hi : i < (labels.getD []).length) :
    Cell.label? labels (.number (Double.ofNat i)) = some (labels.getD [])[i] := by
  have hnonneg : (0 : Int) ≤ (i : Int) := Int.natCast_nonneg i
  simp only [Cell.label?, hwhole]
  rw [if_pos hnonneg, Int.toNat_natCast]
  exact List.getElem?_eq_getElem hi

/-- A label that occurs once stands for its ordinal. -/
theorem parseLabel_getElem {type : FieldType} {labels : Option (List String)} {i : Nat}
    (hnodup : (labels.getD []).Nodup) (hi : i < (labels.getD []).length) :
    Cell.parseLabel type labels (labels.getD [])[i] = .ok (.number (Double.ofNat i)) := by
  have hidx : (labels.getD []).idxOf? (labels.getD [])[i] = some i := by
    refine List.idxOf?_eq_some_iff.mpr ⟨hi, rfl, ?_⟩
    intro j hj
    exact List.pairwise_iff_getElem.mp hnodup j i (by omega) hi hj
  rw [Cell.parseLabel, hidx]

/-- The cell of an exact scalar is a text that its representation reads as the scalar. -/
theorem exists_text (identifier : String) (base : FieldType) {representation : Representation}
    {labels : Option (List String)} {value : Value}
    (hlabels : representation = .enumeration → (labels.getD []).Nodup)
    (h : representation.IsExact labels value) :
    ∃ text, Cell.ofLogical (.logical identifier base representation labels) representation labels
        value = .ok (.string text) ∧
      Cell.parseScalar (.logical identifier base representation labels) text =
        .ok (some value.plain) := by
  cases representation with
  | date =>
    obtain ⟨d, rfl, hreal⟩ := h
    refine ⟨d.text, rfl, ?_⟩
    simp only [Cell.parseScalar, LocalDate.parse_text hreal]
    rfl
  | time =>
    obtain ⟨t, rfl, hday, hmicro⟩ := h
    refine ⟨t.format, rfl, ?_⟩
    simp only [Cell.parseScalar, LocalTime.parse_format hday hmicro]
    rfl
  | datetime =>
    obtain ⟨x, rfl, hfixable⟩ := h
    refine ⟨x.format, rfl, ?_⟩
    simp only [Cell.parseScalar, LocalDateTime.parseFixed_format hfixable]
    rfl
  | enumeration =>
    obtain ⟨i, rfl, hwhole, hi⟩ := h
    refine ⟨(labels.getD [])[i], ?_, ?_⟩
    · simp only [Cell.ofLogical, Cell.ofOrdinal, label?_ofNat hwhole hi]
    · simp only [Cell.parseScalar, parseLabel_getElem (hlabels rfl) hi]
      rfl
  | timeWithLocalTz | passThrough | custom | unknown => exact absurd h id

end Representation

end WarehouseRows
