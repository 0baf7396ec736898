import WarehouseRows.Proofs.DefaultTexts
import WarehouseRows.Proofs.WrappedItems

/-!
# Cells of pass-through types

A pass-through type is stored exactly as its base type. The reader of cells keeps to that, at every
depth: it reads the text as the base type does. The writer does not: it writes the default text of
the value, whatever the base type is. So a value comes back if the reader of the type below takes
its default text for it, and this is less than what comes back at that type itself.

## Main definitions

* `FieldType.underlying`: the type below the pass-through types around it.
* `FieldType.KeepsText`: the scalars that the default text stands for.
-/

namespace WarehouseRows

/-! ## The default text of a scalar -/

/-- Whether the reader of a kind takes the default text of an exact scalar for the scalar. -/
def PrimitiveKind.KeepsText (kind : PrimitiveKind) (value : Value) : Prop :=
  match kind with
  | .bytes => value = .bytes []
  | .datetime => False
  | _ => True

/-- Whether the reader of a representation takes the default text of an exact scalar for the scalar.
The default text of an ordinal is its number, which has to be the label as well. -/
def Representation.KeepsText (representation : Representation) (labels : Option (List String))
    (value : Value) : Prop :=
  match representation with
  | .datetime => ∃ x, value = .dateTime x ∧ x.time.IsSpelledOut
  | .enumeration =>
    ∃ i : Nat, value = .number (Double.ofNat i) ∧
      (labels.getD [])[i]? = some (Double.ofNat i).text
  | _ => True

/-- Whether the reader of a type takes the default text of an exact scalar for the scalar. -/
def FieldType.KeepsText : FieldType → Value → Prop
  | .primitive kind, value => kind.KeepsText value
  | .logical _ _ representation labels, value => representation.KeepsText labels value
  | _, _ => True

/-! ## Primitive kinds -/

namespace PrimitiveKind

/-- Only bytes and instants have a cell that is not their default text. -/
theorem ofPrimitive_eq_written {kind : PrimitiveKind} {value : Value} (hbytes : kind ≠ .bytes)
    (hinstant : kind ≠ .datetime) (h : kind.IsExact value) :
    Cell.ofPrimitive kind value = Cell.written value := by
  cases kind with
  | byte | int16 | int32 | int64 | boolean | string => rfl
  | decimal =>
    obtain ⟨d, rfl, _⟩ := h
    rfl
  | bytes => exact absurd rfl hbytes
  | datetime => exact absurd rfl hinstant
  | float32 | float64 => exact absurd h id

/-- The default text of an exact scalar exists, and its kind reads it as the scalar just if the text
keeps the scalar. -/
theorem exists_written {kind : PrimitiveKind} {value : Value} (h : kind.IsExact value) :
    ∃ text, Cell.written value = .ok (.string text) ∧
      ((∃ back, kind.parseText text = .ok back ∧ back.Same value) ↔ kind.KeepsText value) := by
  cases kind with
  | byte | int16 | int32 | int64 | decimal | boolean | string =>
    obtain ⟨text, hcell, hparse⟩ := exists_text h
    rw [ofPrimitive_eq_written (by decide) (by decide) h] at hcell
    exact ⟨text, hcell, iff_of_true ⟨_, hparse, same_plain h⟩ trivial⟩
  | bytes =>
    obtain ⟨content, rfl⟩ := h
    refine ⟨_, rfl, ?_, ?_⟩
    · rintro ⟨back, hback, _⟩
      rw [parseText, parseBytes] at hback
      split at hback
      · rename_i found hfound
        rw [Base64.eq_nil_of_decode?_decimals hfound]
        rfl
      · exact absurd hback (by simp)
    · rintro hempty
      obtain rfl : content = [] := Value.bytes.inj hempty
      exact ⟨.bytes [], rfl, rfl⟩
  | datetime =>
    obtain ⟨t, rfl, millis, rfl, h0, h1⟩ := h
    obtain ⟨text, htext, hparse⟩ := parseInstant_isoText h0 h1
    refine ⟨text, ?_, ?_, False.elim⟩
    · rw [Cell.written, Cell.textOf, htext]
      rfl
    · rintro ⟨back, hback, _⟩
      rw [parseText, hparse] at hback
      exact absurd hback (by simp)
  | float32 | float64 => exact absurd h id

end PrimitiveKind

/-! ## Logical types -/

namespace Representation

/-- The default text of an exact scalar exists, and its representation reads it as the scalar just
if the text keeps the scalar. -/
theorem exists_written (identifier : String) (base : FieldType) {representation : Representation}
    {labels : Option (List String)} {value : Value}
    (hlabels : representation = .enumeration → (labels.getD []).Nodup)
    (h : representation.IsExact labels value) :
    ∃ text, Cell.written value = .ok (.string text) ∧
      ((∃ back, Cell.parseScalar (.logical identifier base representation labels) text =
          .ok (some back) ∧ back.Same value) ↔ representation.KeepsText labels value) := by
  have hsame := same_plain h
  cases representation with
  | date =>
    obtain ⟨d, rfl, hreal⟩ := h
    refine ⟨d.text, rfl, iff_of_true ⟨.date d.plain, ?_, hsame⟩ trivial⟩
    rw [Cell.parseScalar, LocalDate.parse_text hreal]
    rfl
  | time =>
    obtain ⟨t, rfl, hday, _⟩ := h
    refine ⟨t.text, rfl, iff_of_true ⟨.time t.plain, ?_, hsame⟩ trivial⟩
    rw [Cell.parseScalar, LocalTime.parse_text hday]
    rfl
  | datetime =>
    obtain ⟨x, rfl, hfixable⟩ := h
    refine ⟨x.text, rfl, ?_, ?_⟩
    · rintro ⟨back, hback, _⟩
      by_cases htime : x.time.IsSpelledOut
      · exact ⟨x, rfl, htime⟩
      · rw [Cell.parseScalar, LocalDateTime.parseFixed_text_eq_error hfixable htime] at hback
        exact absurd hback (by simp [Outcome.map_eq_ok])
    · rintro ⟨y, hy, htime⟩
      obtain rfl := Value.dateTime.inj hy
      refine ⟨.dateTime x.plain, ?_, hsame⟩
      rw [Cell.parseScalar, LocalDateTime.parseFixed_text hfixable htime]
      rfl
  | enumeration =>
    obtain ⟨i, rfl, hwhole, hi⟩ := h
    refine ⟨(Double.ofNat i).text, rfl, ?_, ?_⟩
    · rintro ⟨back, hback, hsameBack⟩
      rw [Cell.parseScalar, Cell.parseLabel] at hback
      split at hback
      · rename_i j hj
        obtain ⟨hlt, hlabel, _⟩ := List.idxOf?_eq_some_iff.mp hj
        obtain rfl : Value.number (Double.ofNat j) = back := Option.some.inj (Except.ok.inj hback)
        have heq : Value.number (Double.ofNat i) = .number (Double.ofNat j) :=
          Value.eq_of_same_number hsameBack
        refine ⟨j, heq, ?_⟩
        rw [← Value.number.inj heq, ← hlabel]
        exact List.getElem?_eq_getElem hlt
      · exact absurd hback (by simp [Except.map])
    · rintro ⟨j, hj, hlabel⟩
      have heq := Value.number.inj hj
      obtain ⟨hlt, hget⟩ := List.getElem?_eq_some_iff.mp hlabel
      refine ⟨.number (Double.ofNat j), ?_, by rw [heq]; exact rfl⟩
      rw [Cell.parseScalar, heq, ← hget, parseLabel_getElem (hlabels rfl) hlt]
      rfl
  | timeWithLocalTz | passThrough | custom | unknown => exact absurd h id

end Representation

/-! ## Pass-through types -/

namespace FieldType

/-- The type below the pass-through types around it. -/
def underlying : FieldType → FieldType
  | .logical _ base .passThrough _ => underlying base
  | type => type

/-- The reader of a pass-through type reads as the type below does. -/
theorem parseScalar_underlying (type : FieldType) (text : String) :
    Cell.parseScalar type text = Cell.parseScalar type.underlying text := by
  induction type with
  | logical identifier base representation labels ih =>
    cases representation with
    | passThrough =>
      rw [underlying, Cell.parseScalar]
      exact ih
    | _ => rfl
  | _ => rfl

/-- The default text of an exact scalar exists, and its type reads it as the scalar just if the text
keeps the scalar. -/
theorem exists_written {type : FieldType} {value : Value} (htype : type.IsTextual)
    (h : type.IsExact value) :
    ∃ text, Cell.written value = .ok (.string text) ∧
      ((∃ back, Cell.parseScalar type text = .ok (some back) ∧ back.Same value) ↔
        type.KeepsText value) := by
  cases type with
  | primitive kind =>
    obtain ⟨text, hcell, hiff⟩ := PrimitiveKind.exists_written h
    refine ⟨text, hcell, Iff.trans ?_ hiff⟩
    rw [Cell.parseScalar]
    simp [Outcome.map_eq_ok]
  | logical identifier base representation labels =>
    have hlabels : representation = .enumeration → (labels.getD []).Nodup := by
      rintro rfl
      rw [IsTextual] at htype
      simpa using htype
    exact Representation.exists_written identifier base hlabels h
  | array | map | row | unknown => exact absurd h id

end FieldType

/-- What is the same as a missing value is missing. -/
theorem Value.isAbsent_of_same {a b : Value} (ha : a.isAbsent = true) (h : a.Same b) :
    b.isAbsent = true := by
  have heq : a = b := by
    cases a with
    | null => cases b with | _ => exact h
    | missing => cases b with | _ => exact h
    | _ => exact absurd ha (by simp [isAbsent])
  rw [← heq, ha]

namespace FieldType

/-- A text cell is read as a scalar just if the text is. -/
theorem parse_text_iff {type : FieldType} {nullable : Bool} {text : String} {value : Value}
    (hpresent : value.isAbsent = false) :
    (∃ back, parse type nullable (.string text) = .ok back ∧ back.Same value) ↔
      ∃ back, Cell.parseScalar type text = .ok (some back) ∧ back.Same value := by
  have hnever {back : Value} (hback : back.isAbsent = true) : ¬ back.Same value := fun hsame =>
    absurd (Value.isAbsent_of_same hback hsame) (by simp [hpresent])
  rw [parse_scalar type nullable rfl rfl, Cell.parseText]
  cases hscalar : Cell.parseScalar type text with
  | error e => simp [Except.bind, bind]
  | ok parsed =>
    cases parsed with
    | none => simp
    | some parsed =>
      cases habsent : parsed.isAbsent with
      | false => simp [habsent, pure, Except.pure]
      | true =>
        constructor
        · rintro ⟨back, hback, hsame⟩
          have hmissing : Cell.parseMissing type nullable = .ok back := by
            simpa [habsent] using hback
          rw [Cell.parseMissing] at hmissing
          split at hmissing
          · obtain rfl := Except.ok.inj hmissing
            exact absurd hsame (hnever rfl)
          · exact absurd hmissing (by simp)
        · rintro ⟨back, hback, hsame⟩
          obtain rfl := Option.some.inj (Except.ok.inj hback)
          exact absurd hsame (hnever habsent)

theorem returns_of_isExact {type : FieldType} {nullable : Bool} {value : Value}
    (htype : type.IsTextual) (h : type.IsExact value) : Returns type nullable value := by
  cases type with
  | primitive kind => exact returns_primitive h
  | logical identifier base representation labels =>
    have hpass : representation ≠ .passThrough := by
      rintro rfl
      exact absurd h id
    refine returns_logical htype ?_
    rw [Inhabits, if_neg hpass]
    exact h
  | _ => exact absurd h id

/-- A value that comes back at a type need not come back at a pass-through of it. Every exact scalar
comes back at the type below. At the pass-through it is written as a text, and it comes back just if
the type below takes its default text for it. -/
theorem exists_encode_passThrough {identifier : String} {base : FieldType}
    {labels : Option (List String)} {value : Value} (nullable : Bool)
    (hbase : base.underlying.IsTextual) (hvalue : base.underlying.IsExact value) :
    Returns base.underlying nullable value ∧
      ∃ text, encode (.logical identifier base .passThrough labels) nullable value =
          .ok (.string text) ∧
        ((∃ back, parse (.logical identifier base .passThrough labels) nullable (.string text) =
            .ok back ∧ back.Same value) ↔ base.underlying.KeepsText value) := by
  have hpresent := isAbsent_of_isExact hvalue
  refine ⟨returns_of_isExact hbase hvalue, ?_⟩
  obtain ⟨text, hcell, hiff⟩ := exists_written hbase hvalue
  refine ⟨text, ?_, ?_⟩
  · rw [encode, if_neg (Cell.isNull_of_present hpresent), Cell.ofLogical, hcell]
  · rw [parse_text_iff hpresent, parseScalar_underlying, underlying]
    exact hiff

/-- A date with a time of whole seconds, two names above its type. -/
theorem exists_encode_passThrough_seconds :
    let type := passThrough "departure" (.passThrough "moment" .datetime)
    let value := Value.dateTime
      ⟨.on (.ofInt 2020) 1 1, ⟨.ofInt 10, .ofInt 15, .ofInt 30, .ofInt 0⟩⟩
    ∃ text, encode type false value = .ok (.string text) ∧
      ∃ back, parse type false (.string text) = .ok back ∧ back.Same value := by
  intro type value
  have hvalue : (passThrough "moment" .datetime).underlying.IsExact value :=
    ⟨_, rfl, ⟨by rfl, by rintro _ _ _ ⟨⟩; decide, ⟨by decide, by decide, by decide, by decide⟩,
      by decide⟩⟩
  obtain ⟨_, text, hcell, hback⟩ := @exists_encode_passThrough "departure"
    (.passThrough "moment" .datetime) none value false (Or.inr (Or.inr (Or.inl rfl))) hvalue
  exact ⟨text, hcell, hback.mpr ⟨_, rfl, by decide⟩⟩

/-- Values that come back at a type and not at a pass-through of it: bytes, an instant, a date with a
time on the minute, and an ordinal that comes back as another one, since its number is the label of
that one. -/
theorem exists_encode_passThrough_lost :
    let named (base : FieldType) := passThrough "named" base
    let onTheMinute := Value.dateTime
      ⟨.on (.ofInt 2020) 1 1, ⟨.ofInt 10, .ofInt 15, .ofInt 0, .ofInt 0⟩⟩
    (Returns (.primitive .bytes) false (.bytes [1, 2, 3]) ∧
      encode (named (.primitive .bytes)) false (.bytes [1, 2, 3]) = .ok (.string "1,2,3") ∧
      ∃ e, parse (named (.primitive .bytes)) false (.string "1,2,3") = .error e) ∧
    (Returns (.primitive .datetime) false (.instant (.at 0)) ∧
      encode (named (.primitive .datetime)) false (.instant (.at 0)) =
        .ok (.string "1970-01-01T00:00:00.000Z") ∧
      ∃ e, parse (named (.primitive .datetime)) false (.string "1970-01-01T00:00:00.000Z") =
        .error e) ∧
    (Returns .datetime false onTheMinute ∧
      encode (named .datetime) false onTheMinute = .ok (.string "2020-01-01T10:15") ∧
      ∃ e, parse (named .datetime) false (.string "2020-01-01T10:15") = .error e) ∧
    (Returns (.enumeration ["1", "0"]) false (.number (Double.ofNat 1)) ∧
      encode (named (.enumeration ["1", "0"])) false (.number (Double.ofNat 1)) =
        .ok (.string "1") ∧
      parse (named (.enumeration ["1", "0"])) false (.string "1") =
        .ok (.number (Double.ofNat 0))) :=
  ⟨⟨⟨_, rfl, rfl⟩, rfl, _, rfl⟩, ⟨⟨_, rfl, rfl⟩, rfl, _, rfl⟩, ⟨⟨_, rfl, rfl⟩, rfl, _, rfl⟩,
    ⟨_, rfl, rfl⟩, rfl, rfl⟩

end FieldType

end WarehouseRows
