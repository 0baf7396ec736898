import WarehouseRows.Avro.Reader
import WarehouseRows.Proofs.IntegerText
import WarehouseRows.Proofs.TableRows
import WarehouseRows.Proofs.Typing

/-!
# Readers give values of the declared type

Two readers take raw values to canonical ones: one reads native values of Avro records and
cuts integers to the width of their type, the other reads the texts of table rows and
refuses integers that are too wide. Whatever raw value they are given, they fail or give a
value of the declared type, and `null` only where it is allowed.
-/

namespace WarehouseRows

/-! ## Integers of a width -/

/-- An integer that is reduced to a width has the width. -/
theorem fits_wrap (width : Nat) (n : Int) :
    PrimitiveKind.fits (width + 1) (Avro.wrap (width + 1) n) = true := by
  have hpos : 0 < 2 ^ width := Nat.two_pow_pos width
  have hpow : 2 ^ (width + 1) = 2 * 2 ^ width := by rw [Nat.pow_succ, Nat.mul_comm]
  have hle := Int.le_bmod (x := n) (m := 2 ^ (width + 1)) (by omega)
  have hlt := Int.bmod_lt (x := n) (m := 2 ^ (width + 1)) (by omega)
  simp only [PrimitiveKind.fits, Avro.wrap, Nat.pow_eq, Nat.add_sub_cancel, Bool.and_eq_true,
    decide_eq_true_eq]
  omega

theorem isBounded_ofInt {bits : Nat} {n : Int} (hb : bits ≤ 53)
    (h : PrimitiveKind.fits bits n = true) : (Value.number (Double.ofInt n)).IsBounded bits :=
  ⟨Double.ofInt n, n, rfl, Double.whole?_ofInt (PrimitiveKind.natAbs_lt_of_fits hb h), h⟩

/-! ## Keys as they are stored -/

theorem isBounded_asKey {bits : Nat} {value : Value} (h : value.IsBounded bits) :
    value.asKey.IsBounded bits := by
  obtain ⟨x, n, rfl, hwhole, hfits⟩ := h
  by_cases hzero : x.isZero = true
  · obtain rfl : 0 = n := Option.some.inj ((Double.whole?_of_isZero hzero).symm.trans hwhole)
    refine ⟨Double.zero, 0, ?_, Double.whole?_of_isZero rfl, hfits⟩
    simp [Value.asKey, hzero]
  · refine ⟨x, n, ?_, hwhole, hfits⟩
    simp [Value.asKey, hzero]

/-- A scalar stays one of its type when the sign of a zero is dropped. -/
theorem PrimitiveKind.isScalar_asKey {kind : PrimitiveKind} {value : Value}
    (h : kind.IsScalar value) : kind.IsScalar value.asKey := by
  cases kind with
  | byte => exact isBounded_asKey h
  | int16 => exact isBounded_asKey h
  | int32 => exact isBounded_asKey h
  | float32 =>
    obtain ⟨x, rfl⟩ := h
    by_cases hzero : x.toSingle.isZero = true
    · exact ⟨Double.zero, by rw [Value.asKey, if_pos hzero]; rfl⟩
    · exact ⟨x, by rw [Value.asKey, if_neg hzero]⟩
  | float64 =>
    obtain ⟨x, rfl⟩ := h
    exact ⟨_, rfl⟩
  | int64 =>
    obtain ⟨n, rfl, hn⟩ := h
    exact ⟨n, rfl, hn⟩
  | decimal | boolean | string | bytes | datetime =>
    obtain ⟨x, rfl⟩ := h
    exact ⟨x, rfl⟩

theorem Representation.isScalar_asKey {representation : Representation}
    {labels : Option (List String)} {value : Value} (h : representation.IsScalar labels value) :
    representation.IsScalar labels value.asKey := by
  cases representation with
  | enumeration =>
    obtain ⟨i, rfl, hi⟩ := h
    by_cases hzero : (Double.ofNat i).isZero = true
    · exact ⟨0, by rw [Value.asKey, if_pos hzero]; rfl, by omega⟩
    · exact ⟨i, by rw [Value.asKey, if_neg hzero], hi⟩
  | date =>
    obtain ⟨d, rfl⟩ := h
    exact ⟨d, rfl⟩
  | time =>
    obtain ⟨t, rfl, ht⟩ := h
    exact ⟨t, rfl, ht⟩
  | datetime =>
    obtain ⟨x, rfl, hx⟩ := h
    exact ⟨x, rfl, hx⟩
  | timeWithLocalTz =>
    obtain ⟨t, rfl⟩ := h
    exact ⟨t, rfl⟩
  | passThrough | custom | unknown => exact absurd h id

/-- A value stays one of its type when it is stored as a key. -/
theorem FieldType.inhabits_asKey {type : FieldType} {value : Value}
    (h : type.Inhabits IsScalar value) : type.Inhabits IsScalar value.asKey := by
  induction type with
  | primitive kind => exact PrimitiveKind.isScalar_asKey h
  | array element elementNullable _ =>
    obtain ⟨items, rfl, hitems⟩ := h
    exact ⟨items, rfl, hitems⟩
  | map key value valueNullable _ _ =>
    obtain ⟨entries, rfl, hentries⟩ := h
    exact ⟨entries, rfl, hentries⟩
  | row fields _ =>
    obtain ⟨items, rfl, hitems⟩ := h
    exact ⟨items, rfl, hitems⟩
  | logical identifier base representation labels ih =>
    rw [Inhabits] at h ⊢
    split at h
    · rename_i hpass
      rw [if_pos hpass]
      exact ih h
    · rename_i hpass
      rw [if_neg hpass]
      exact Representation.isScalar_asKey h
  | unknown kind => exact absurd h id

/-! ## Scalars from native values -/

namespace Avro

variable {type : FieldType} {options : ConversionOptions} {value v : Value}

theorem readBounded_isBounded (width : Nat) (hw : width + 1 ≤ 53)
    (h : readBounded type (width + 1) value = .ok v) : v.IsBounded (width + 1) := by
  obtain ⟨n, _, rfl⟩ := Outcome.map_eq_ok.mp h
  exact isBounded_ofInt hw (fits_wrap width n)

theorem readInstant_eq_ok (h : readInstant type options value = .ok v) :
    ∃ micros, toLong type value = .ok micros ∧
      v = .instant (Instant.ofMillis (micros.tdiv 1000)) := by
  obtain ⟨micros, hmicros, h⟩ := Outcome.bind_eq_ok.mp h
  refine ⟨micros, hmicros, ?_⟩
  split at h
  · exact (Except.ok.inj h).symm
  · split at h
    · exact (Except.ok.inj h).symm
    · exact absurd h (by simp)
  · exact absurd h (by simp)

theorem readPrimitive_isScalar {kind : PrimitiveKind}
    (h : readPrimitive kind options value = .ok v) : kind.IsScalar v := by
  cases kind with
  | byte => exact readBounded_isBounded 7 (by decide) h
  | int16 => exact readBounded_isBounded 15 (by decide) h
  | int32 => exact readBounded_isBounded 31 (by decide) h
  | int64 =>
    obtain ⟨n, _, rfl⟩ := Outcome.map_eq_ok.mp h
    exact ⟨wrap 64 n, rfl, fits_wrap 63 n⟩
  | float32 =>
    cases value with
    | number x => exact ⟨x, (Except.ok.inj h).symm⟩
    | _ => exact absurd h (by simp [readPrimitive])
  | float64 =>
    cases value with
    | number x => exact ⟨x, (Except.ok.inj h).symm⟩
    | _ => exact absurd h (by simp [readPrimitive])
  | boolean =>
    cases value with
    | bool b => exact ⟨b, (Except.ok.inj h).symm⟩
    | _ => exact absurd h (by simp [readPrimitive])
  | decimal =>
    obtain ⟨content, _, rfl⟩ := Outcome.map_eq_ok.mp h
    exact ⟨_, rfl⟩
  | string =>
    obtain ⟨s, _, rfl⟩ := Outcome.map_eq_ok.mp h
    exact ⟨s, rfl⟩
  | bytes =>
    obtain ⟨content, _, rfl⟩ := Outcome.map_eq_ok.mp h
    exact ⟨content, rfl⟩
  | datetime =>
    obtain ⟨micros, _, rfl⟩ := readInstant_eq_ok h
    exact ⟨_, rfl⟩

theorem readDate_eq_ok (h : readDate type value = .ok v) :
    ∃ x days, value = .number x ∧ x.whole? = some days ∧ v = .date (LocalDate.ofDayCount x) := by
  cases value with
  | number x =>
    rw [readDate] at h
    split at h
    · rename_i hwhole
      obtain ⟨days, hdays⟩ := Option.isSome_iff_exists.mp hwhole
      exact ⟨x, days, rfl, hdays, (Except.ok.inj h).symm⟩
    · exact absurd h (by simp)
  | _ => exact absurd h (by simp [readDate])

theorem readTime_eq_ok (h : readTime type value = .ok v) : ∃ t, v = .time t ∧ t.InDay := by
  obtain ⟨micros, _, h⟩ := Outcome.bind_eq_ok.mp h
  obtain ⟨t, ht, rfl⟩ := Outcome.map_eq_ok.mp (Outcome.mapError_eq_ok.mp h)
  exact ⟨t, rfl, LocalTime.inDay_of_ofNanoOfDay ht⟩

theorem readDateTime_eq_ok (h : readDateTime type value = .ok v) :
    ∃ x, v = .dateTime x ∧ x.InRange := by
  obtain ⟨text, _, h⟩ := Outcome.bind_eq_ok.mp h
  obtain ⟨x, hx, rfl⟩ := Outcome.map_eq_ok.mp (Outcome.mapError_eq_ok.mp h)
  exact ⟨x, rfl, LocalDateTime.inRange_of_parse hx⟩

theorem readAbsent_eq_ok {nullable : Bool} (h : readAbsent type nullable = .ok v) :
    nullable = true ∧ v = .null := by
  rw [readAbsent] at h
  split at h
  · rename_i hn
    exact ⟨hn, (Except.ok.inj h).symm⟩
  · exact absurd h (by simp)

end Avro

/-! ## Values from native values -/

namespace FieldType

variable {options : ConversionOptions}

/-- The values of fields are read one after another. -/
theorem readAvroFields_cons_eq_ok {f : Field} {fields : List Field} {record : Value} {row : Row}
    (h : readAvroFields options (f :: fields) record = .ok row) :
    ∃ raw first others, readAvro options f.type f.nullable raw = .ok first ∧
      readAvroFields options fields record = .ok others ∧ row = first :: others := by
  rw [readAvroFields] at h
  obtain ⟨first, hfirst, h⟩ := Outcome.bind_eq_ok.mp h
  obtain ⟨others, hothers, h⟩ := Outcome.bind_eq_ok.mp h
  obtain ⟨raw, _, hfirst⟩ := Outcome.bind_eq_ok.mp (Outcome.mapError_eq_ok.mp hfirst)
  exact ⟨raw, first, others, hfirst, hothers, (Except.ok.inj h).symm⟩

/-- Fields whose types are read soundly make up rows that are read soundly. -/
theorem rowInhabits_of_readAvroFields {fields : List Field} {record : Value} {row : Row}
    (hfields : ∀ f ∈ fields, ∀ {nullable raw v}, readAvro options f.type nullable raw = .ok v →
      f.type.Admits IsScalar nullable v)
    (h : readAvroFields options fields record = .ok row) : RowInhabits IsScalar fields row := by
  induction fields generalizing row with
  | nil =>
    obtain rfl := Except.ok.inj h
    exact trivial
  | cons f fields ih =>
    obtain ⟨raw, first, others, hfirst, hothers, rfl⟩ := readAvroFields_cons_eq_ok h
    exact ⟨hfields f List.mem_cons_self hfirst,
      ih (fun f hf => hfields f (List.mem_cons_of_mem _ hf)) hothers⟩

/-- A place that is not nullable admits the values of its type only. -/
theorem inhabits_of_admits {type : FieldType} {value : Value}
    (h : type.Admits IsScalar false value) : type.Inhabits IsScalar value := by
  rcases h with ⟨hn, _⟩ | h
  · exact absurd hn Bool.false_ne_true
  · exact h

/-- The scalars of a logical type that is no pass-through are its values. -/
theorem inhabits_logical {identifier : String} {base : FieldType}
    {representation : Representation} {labels : Option (List String)} {value : Value}
    (hpass : representation ≠ .passThrough) (h : representation.IsScalar labels value) :
    (FieldType.logical identifier base representation labels).Inhabits IsScalar value := by
  rw [Inhabits, if_neg hpass]
  exact h

/-- The values of the base are the values of a pass-through. -/
theorem inhabits_passThrough {identifier : String} {base : FieldType}
    {labels : Option (List String)} {value : Value} (h : base.Inhabits IsScalar value) :
    (FieldType.logical identifier base .passThrough labels).Inhabits IsScalar value := by
  rw [Inhabits, if_pos rfl]
  exact h

/-- What is read from a native value may stand at a place of the type. -/
theorem admits_of_readAvro {type : FieldType} {nullable : Bool} {raw v : Value}
    (h : readAvro options type nullable raw = .ok v) : type.Admits IsScalar nullable v := by
  induction type generalizing nullable raw v with
  | primitive kind =>
    rw [readAvro] at h
    split at h
    · exact Or.inl (Avro.readAbsent_eq_ok h)
    · exact Or.inr (Avro.readPrimitive_isScalar h)
  | array element elementNullable ih =>
    rw [readAvro] at h
    split at h
    · exact Or.inl (Avro.readAbsent_eq_ok h)
    · obtain ⟨items, _, h⟩ := Outcome.bind_eq_ok.mp h
      obtain ⟨read, hread, h⟩ := Outcome.bind_eq_ok.mp h
      exact Or.inr ⟨read, (Except.ok.inj h).symm,
        Outcome.forall_of_mapM hread fun _ _ _ hitem => ih hitem⟩
  | map key value valueNullable ihKey ihValue =>
    rw [readAvro] at h
    split at h
    · exact Or.inl (Avro.readAbsent_eq_ok h)
    · obtain ⟨items, _, h⟩ := Outcome.bind_eq_ok.mp h
      obtain ⟨entries, hread, h⟩ := Outcome.bind_eq_ok.mp h
      -- keys are read where nothing may be missing, and stored without the sign of a zero
      exact Or.inr ⟨entries, (Except.ok.inj h).symm, Value.readEntries_inv
        (fun _ _ hkey => inhabits_asKey (inhabits_of_admits (ihKey hkey)))
        (fun _ _ hvalue => ihValue hvalue) hread List.Pairwise.nil (by simp)⟩
  | row fields ih =>
    rw [readAvro] at h
    split at h
    · exact Or.inl (Avro.readAbsent_eq_ok h)
    · split at h
      · obtain ⟨row, hrow, h⟩ := Outcome.bind_eq_ok.mp h
        exact Or.inr ⟨row, (Except.ok.inj h).symm,
          rowInhabits_of_readAvroFields (fun f hf _ _ _ hread => ih f hf hread) hrow⟩
      · exact absurd h (by simp)
  | logical identifier base representation labels ih =>
    rw [readAvro] at h
    split at h
    · exact Or.inl (Avro.readAbsent_eq_ok h)
    · cases representation with
      | date =>
        obtain ⟨_, _, _, _, rfl⟩ := Avro.readDate_eq_ok h
        exact Or.inr (inhabits_logical (by simp) ⟨_, rfl⟩)
      | time => exact Or.inr (inhabits_logical (by simp) (Avro.readTime_eq_ok h))
      | datetime => exact Or.inr (inhabits_logical (by simp) (Avro.readDateTime_eq_ok h))
      | timeWithLocalTz =>
        obtain ⟨_, _, rfl⟩ := Avro.readInstant_eq_ok h
        exact Or.inr (inhabits_logical (by simp) ⟨_, rfl⟩)
      | passThrough => exact (ih h).imp id inhabits_passThrough
      | enumeration | custom | unknown => exact absurd h (by simp)
  | unknown kind =>
    rw [readAvro] at h
    split at h
    · exact Or.inl (Avro.readAbsent_eq_ok h)
    · exact absurd h (by simp)

end FieldType

/-! ## Scalars from text -/

namespace PrimitiveKind

theorem parseBounded_isBounded {kind : PrimitiveKind} {bits : Nat} {text : String} {v : Value}
    (h : parseBounded kind bits text = .ok v) : v.IsBounded bits := by
  simp only [parseBounded] at h
  split at h
  · rename_i n hwhole
    split at h
    · rename_i hfits
      obtain rfl := Except.ok.inj h
      exact ⟨_, n, rfl, hwhole, hfits⟩
    · exact absurd h (by simp)
  · exact absurd h (by simp)

/-- What a kind reads from text is a scalar of it, or `null` for an instant without text. -/
theorem parseText_isScalar {kind : PrimitiveKind} {text : String} {v : Value}
    (h : kind.parseText text = .ok v) : v = .null ∨ kind.IsScalar v := by
  cases kind with
  | byte => exact Or.inr (parseBounded_isBounded h)
  | int16 => exact Or.inr (parseBounded_isBounded h)
  | int32 => exact Or.inr (parseBounded_isBounded h)
  | int64 =>
    rw [parseText, parseLong] at h
    split at h
    · simp only at h
      split at h
      · rename_i hwrap
        exact Or.inr ⟨_, (Except.ok.inj h).symm, (bmod_eq_iff_fits _).mp hwrap⟩
      · exact absurd h (by simp)
    · exact absurd h (by simp)
  | float32 =>
    rw [parseText, parseFloat] at h
    split at h
    · exact Or.inr ⟨_, (Except.ok.inj h).symm⟩
    · exact absurd h (by simp)
  | float64 =>
    rw [parseText, parseFloat] at h
    split at h
    · exact Or.inr ⟨_, (Except.ok.inj h).symm⟩
    · exact absurd h (by simp)
  | decimal =>
    obtain ⟨d, _, rfl⟩ := Outcome.map_eq_ok.mp h
    exact Or.inr ⟨d, rfl⟩
  | boolean => exact Or.inr ⟨_, (Except.ok.inj h).symm⟩
  | string => exact Or.inr ⟨_, (Except.ok.inj h).symm⟩
  | bytes =>
    rw [parseText, parseBytes] at h
    split at h
    · exact Or.inr ⟨_, (Except.ok.inj h).symm⟩
    · exact absurd h (by simp)
  | datetime =>
    rw [parseText, parseInstant] at h
    split at h
    · exact Or.inl (Except.ok.inj h).symm
    · split at h <;> obtain ⟨t, _, rfl⟩ := Outcome.map_eq_ok.mp h <;> exact Or.inr ⟨t, rfl⟩

end PrimitiveKind

namespace FieldType

theorem parseLabel_isScalar {type : FieldType} {labels : Option (List String)} {text : String}
    {v : Value} (h : Cell.parseLabel type labels text = .ok v) :
    Representation.enumeration.IsScalar labels v := by
  rw [Cell.parseLabel] at h
  split at h
  · rename_i i hi
    obtain ⟨hlt, _⟩ := List.idxOf?_eq_some_iff.mp hi
    exact ⟨i, (Except.ok.inj h).symm, hlt⟩
  · exact absurd h (by simp)

/-- The value that text denotes at a type is one of the type, or `null`. -/
theorem parseScalar_inhabits {type : FieldType} {text : String} {v : Value}
    (h : Cell.parseScalar type text = .ok (some v)) : v = .null ∨ type.Inhabits IsScalar v := by
  induction type with
  | primitive kind =>
    rw [Cell.parseScalar] at h
    obtain ⟨w, hw, hv⟩ := Outcome.map_eq_ok.mp (Outcome.mapError_eq_ok.mp h)
    obtain rfl := Option.some.inj hv
    exact PrimitiveKind.parseText_isScalar hw
  | logical identifier base representation labels ih =>
    cases representation with
    | date =>
      obtain ⟨d, _, hv⟩ := Outcome.map_eq_ok.mp (Outcome.mapError_eq_ok.mp h)
      exact Or.inr (inhabits_logical (by simp) ⟨d, (Option.some.inj hv).symm⟩)
    | time =>
      obtain ⟨t, ht, hv⟩ := Outcome.map_eq_ok.mp (Outcome.mapError_eq_ok.mp h)
      exact Or.inr (inhabits_logical (by simp)
        ⟨t, (Option.some.inj hv).symm, LocalTime.inDay_of_parse ht⟩)
    | datetime =>
      obtain ⟨x, hx, hv⟩ := Outcome.map_eq_ok.mp (Outcome.mapError_eq_ok.mp h)
      exact Or.inr (inhabits_logical (by simp)
        ⟨x, (Option.some.inj hv).symm, LocalDateTime.inRange_of_parseFixed hx⟩)
    | enumeration =>
      obtain ⟨w, hw, hv⟩ := Outcome.map_eq_ok.mp h
      obtain rfl := Option.some.inj hv
      exact Or.inr (inhabits_logical (by simp) (parseLabel_isScalar hw))
    | passThrough => exact (ih h).imp id inhabits_passThrough
    | timeWithLocalTz | custom | unknown => exact absurd h (by simp [Cell.parseScalar])
  | array | map | row | unknown => exact absurd h (by simp [Cell.parseScalar])

theorem parseMissing_eq_ok {type : FieldType} {nullable : Bool} {v : Value}
    (h : Cell.parseMissing type nullable = .ok v) : nullable = true ∧ v = .null := by
  rw [Cell.parseMissing] at h
  split at h
  · rename_i hn
    exact ⟨hn, (Except.ok.inj h).symm⟩
  · exact absurd h (by simp)

/-- The value of a cell that holds a scalar may stand at a place of the type. -/
theorem admits_of_parseText {type : FieldType} {nullable : Bool} {raw v : Value} {text : String}
    (h : Cell.parseText type nullable raw text = .ok v) : type.Admits IsScalar nullable v := by
  obtain ⟨parsed?, hparsed, h⟩ := Outcome.bind_eq_ok.mp h
  cases parsed? with
  | none => exact absurd h (by simp)
  | some parsed =>
    simp only at h
    split at h
    · exact Or.inl (parseMissing_eq_ok h)
    · rename_i hpresent
      obtain rfl := Except.ok.inj h
      rcases parseScalar_inhabits hparsed with rfl | hv
      · exact absurd rfl hpresent
      · exact Or.inr hv

/-! ## Values from cells -/

theorem parseFields_cons_eq_ok {f : Field} {fields : List Field} {tableRow : Value} {row : Row}
    (h : parseFields (f :: fields) tableRow = .ok row) :
    ∃ raw first others, tableRow.fieldOf f.name = .ok raw ∧
      parse f.type f.nullable raw = .ok first ∧
      parseFields fields tableRow = .ok others ∧ row = first :: others := by
  rw [parseFields] at h
  obtain ⟨first, hfirst, h⟩ := Outcome.bind_eq_ok.mp h
  obtain ⟨others, hothers, h⟩ := Outcome.bind_eq_ok.mp h
  obtain ⟨raw, hraw, hfirst⟩ := Outcome.bind_eq_ok.mp (Outcome.mapError_eq_ok.mp hfirst)
  exact ⟨raw, first, others, hraw, hfirst, hothers, (Except.ok.inj h).symm⟩

theorem rowInhabits_of_parseFields {fields : List Field} {tableRow : Value} {row : Row}
    (hfields : ∀ f ∈ fields, ∀ {nullable raw v}, parse f.type nullable raw = .ok v →
      f.type.Admits IsScalar nullable v)
    (h : parseFields fields tableRow = .ok row) : RowInhabits IsScalar fields row := by
  induction fields generalizing row with
  | nil =>
    obtain rfl := Except.ok.inj h
    exact trivial
  | cons f fields ih =>
    obtain ⟨raw, first, others, _, hfirst, hothers, rfl⟩ := parseFields_cons_eq_ok h
    exact ⟨hfields f List.mem_cons_self hfirst,
      ih (fun f hf => hfields f (List.mem_cons_of_mem _ hf)) hothers⟩

/-- A cell that is absent or holds a scalar is read soundly at every type, so that only the
cells with parts are left. -/
theorem admits_or_parts {type : FieldType} {nullable : Bool} {raw v : Value}
    (h : parse type nullable raw = .ok v) :
    type.Admits IsScalar nullable v ∨
      (raw.isAbsent = false ∧ Cell.scalarText? raw = none) := by
  cases habsent : raw.isAbsent with
  | true =>
    rw [parse_absent type nullable habsent] at h
    exact Or.inl (Or.inl (parseMissing_eq_ok h))
  | false =>
    cases htext : Cell.scalarText? raw with
    | some text =>
      rw [parse_scalar type nullable habsent htext] at h
      exact Or.inl (admits_of_parseText h)
    | none => exact Or.inr ⟨rfl, rfl⟩

/-- What is read from a cell may stand at a place of the type. -/
theorem admits_of_parse {type : FieldType} {nullable : Bool} {raw v : Value}
    (h : parse type nullable raw = .ok v) : type.Admits IsScalar nullable v := by
  induction type generalizing nullable raw v with
  | array element elementNullable ih =>
    rcases admits_or_parts h with hadmits | ⟨hpresent, htext⟩
    · exact hadmits
    · rw [parse.eq_def, if_neg (by simp [hpresent])] at h
      simp only [htext] at h
      split at h
      · obtain ⟨parsed, hparsed, h⟩ := Outcome.bind_eq_ok.mp h
        exact Or.inr ⟨parsed, (Except.ok.inj h).symm,
          Outcome.forall_of_mapM hparsed fun _ _ _ hitem => ih hitem⟩
      · exact absurd h (by simp)
  | map key value valueNullable ihKey ihValue =>
    rcases admits_or_parts h with hadmits | ⟨hpresent, htext⟩
    · exact hadmits
    · rw [parse.eq_def, if_neg (by simp [hpresent])] at h
      simp only [htext] at h
      split at h
      · obtain ⟨entries, hread, h⟩ := Outcome.bind_eq_ok.mp h
        exact Or.inr ⟨entries, (Except.ok.inj h).symm, Value.readEntries_inv
          (fun _ _ hkey => inhabits_asKey (inhabits_of_admits (ihKey hkey)))
          (fun _ _ hvalue => ihValue hvalue) hread List.Pairwise.nil (by simp)⟩
      · exact absurd h (by simp)
  | row fields ih =>
    rcases admits_or_parts h with hadmits | ⟨hpresent, htext⟩
    · exact hadmits
    · rw [parse.eq_def, if_neg (by simp [hpresent])] at h
      simp only [htext] at h
      split at h
      · obtain ⟨row, hrow, h⟩ := Outcome.bind_eq_ok.mp h
        exact Or.inr ⟨row, (Except.ok.inj h).symm,
          rowInhabits_of_parseFields (fun f hf _ _ _ hread => ih f hf hread) hrow⟩
      · exact absurd h (by simp)
  | primitive | logical | unknown =>
    rcases admits_or_parts h with hadmits | ⟨hpresent, htext⟩
    · exact hadmits
    · rw [parse.eq_def, if_neg (by simp [hpresent])] at h
      simp only [htext] at h
      exact absurd h (by simp)

end FieldType

/-! ## Both readers -/

/-- Both readers, for rows: one value of its type for every field of the schema, in the order
of the schema. -/
theorem Row.rowInhabits_of_read {options : ConversionOptions} {schema : Schema} {raw : Value}
    {row : Row} (h : Row.ofAvro options schema raw = .ok row ∨
      Row.ofTableRow schema raw = .ok row) :
    FieldType.RowInhabits FieldType.IsScalar schema row := by
  rcases h with h | h
  · exact FieldType.rowInhabits_of_readAvroFields
      (fun _ _ _ _ _ hread => FieldType.admits_of_readAvro hread) h
  · exact FieldType.rowInhabits_of_parseFields
      (fun _ _ _ _ _ hread => FieldType.admits_of_parse hread) h

/-- Both readers, at every type, nullable or not, under all options and for every raw value:
a value that is returned is one of the type, or `null` at a nullable place. -/
theorem FieldType.admits_of_read {options : ConversionOptions} {type : FieldType}
    {nullable : Bool} {raw v : Value}
    (h : readAvro options type nullable raw = .ok v ∨ parse type nullable raw = .ok v) :
    type.Admits IsScalar nullable v := by
  rcases h with h | h
  · exact admits_of_readAvro h
  · exact admits_of_parse h

/-- An array of bytes: a native integer is cut to eight bits, and `null` is let through. -/
theorem FieldType.admits_of_read_bytes :
    readAvro { } (.array (.primitive .byte) true) false (.list [.integer 300, .null]) =
        .ok (.list [.number (Double.ofInt 44), .null]) ∧
      (FieldType.array (.primitive .byte) true).Admits IsScalar false
        (.list [.number (Double.ofInt 44), .null]) :=
  ⟨rfl, @admits_of_read { } _ _ (.list [.integer 300, .null]) _ (Or.inl rfl)⟩

end WarehouseRows
