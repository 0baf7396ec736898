import WarehouseRows.Proofs.UsableValues

/-!
# Which rows are usable

Both readers take a raw value apart along its type. At the leaves the instants and dates that they
give are usable just if the counts behind them are in the range, and a list, a map or a row is
usable just if its parts are. So a row that is read is usable just if all counts in its record are
in the range.
-/

namespace WarehouseRows

/-! ## Leaves of native values -/

namespace Avro

variable {type : FieldType} {options : ConversionOptions} {raw v : Value}

theorem isLong_of_toLong {n : Int} (h : toLong type raw = .ok n) : IsLong raw n := by
  cases raw with
  | integer k =>
    obtain rfl := Except.ok.inj h
    exact Or.inl rfl
  | number x =>
    rw [toLong] at h
    split at h
    · rename_i k hwhole
      obtain rfl := Except.ok.inj h
      exact Or.inr ⟨x, rfl, hwhole⟩
    · exact absurd h (by simp)
  | _ => exact absurd h (by simp [toLong])

theorem eq_list_of_toItems {items : List Value} (h : toItems type raw = .ok items) :
    raw = .list items := by
  cases raw with
  | list _ => rw [Except.ok.inj h]
  | _ => exact absurd h (by simp [toItems])

/-- An instant that is read is usable just if its microseconds are in the range. -/
theorem readInstant_isUsable_iff (h : readInstant type options raw = .ok v) :
    v.IsUsable ↔ (MapReader.native options).InstantInRange raw := by
  obtain ⟨micros, hmicros, rfl⟩ := readInstant_eq_ok h
  rw [Value.isUsable_instant, Instant.isValid_ofMillis]
  constructor
  · intro hrange other hother
    obtain rfl := Except.ok.inj (hmicros.symm.trans (toLong_of_isLong type hother))
    exact hrange
  · exact fun hrange => hrange micros (isLong_of_toLong hmicros)

/-- A date that is read is usable just if its days are in the range. -/
theorem readDate_isUsable_iff (options : ConversionOptions) (h : readDate type raw = .ok v) :
    v.IsUsable ↔ (MapReader.native options).DateInRange raw := by
  obtain ⟨x, days, rfl, hdays, rfl⟩ := readDate_eq_ok h
  rw [Value.isUsable_date, LocalDate.isAccepted_ofDayCount hdays]
  constructor
  · rintro hrange y other hy hother
    obtain rfl := Value.number.inj hy
    obtain rfl := Option.some.inj (hdays.symm.trans hother)
    exact hrange
  · exact fun hrange => hrange x days rfl hdays

theorem readPrimitive_isUsable_iff {kind : PrimitiveKind}
    (h : readPrimitive kind options raw = .ok v) :
    v.IsUsable ↔ (MapReader.native options).CountsInRange (.primitive kind) raw := by
  by_cases hkind : kind = .datetime
  · subst hkind
    rw [readInstant_isUsable_iff h]
    exact ⟨fun hrange _ => hrange, fun hrange => hrange rfl⟩
  · exact iff_of_true (PrimitiveKind.isUsable_of_isScalar hkind (readPrimitive_isScalar h))
      fun hdatetime => absurd hdatetime hkind

end Avro

/-! ## Leaves of cells -/

namespace Cell

variable {raw v : Value} {text : String}

/-- An instant that is read from a text is usable just if it is in the fixed format or its seconds
are in the range. -/
theorem parseInstant_isUsable_iff (htext : scalarText? raw = some text)
    (h : PrimitiveKind.parseInstant text = .ok v) :
    v.IsUsable ↔ MapReader.cells.InstantInRange raw := by
  have hrange : MapReader.cells.InstantInRange raw ↔
      (text ≠ "" → PrimitiveKind.endsInUtc text.toList = false →
        (Double.ofText text).Within (Instant.maxDays * 86400)) := by
    rw [MapReader.InstantInRange, htext]
    exact ⟨fun h => h text rfl, fun h other hother => Option.some.inj hother ▸ h⟩
  rw [hrange]
  rw [PrimitiveKind.parseInstant] at h
  split at h
  · rename_i hempty
    obtain rfl := Except.ok.inj h
    exact iff_of_true (Value.isUsable_of_isAbsent rfl) fun hne => absurd (by simpa using hempty) hne
  · rename_i hempty
    have hne : text ≠ "" := by simpa using hempty
    split at h
    · rename_i hutc
      obtain ⟨t, ht, rfl⟩ := Outcome.map_eq_ok.mp h
      rw [Value.isUsable_instant]
      exact iff_of_true (Timestamp.isValid_of_parse ht) fun _ hother =>
        absurd (hutc.symm.trans hother) (by decide)
    · rename_i hseconds
      obtain ⟨t, ht, rfl⟩ := Outcome.map_eq_ok.mp h
      rw [Value.isUsable_instant, Timestamp.isValid_of_parseEpochSeconds ht]
      exact ⟨fun h _ _ => h, fun h => h hne (by simpa using hseconds)⟩

theorem parsePrimitive_isUsable_iff {kind : PrimitiveKind} (htext : scalarText? raw = some text)
    (h : kind.parseText text = .ok v) :
    v.IsUsable ↔ MapReader.cells.CountsInRange (.primitive kind) raw := by
  by_cases hkind : kind = .datetime
  · subst hkind
    rw [parseInstant_isUsable_iff htext h]
    exact ⟨fun hrange _ => hrange, fun hrange => hrange rfl⟩
  · refine iff_of_true ?_ fun hdatetime => absurd hdatetime hkind
    rcases PrimitiveKind.parseText_isScalar h with rfl | hscalar
    · exact Value.isUsable_of_isAbsent rfl
    · exact PrimitiveKind.isUsable_of_isScalar hkind hscalar

/-- What a text denotes at a type is usable just if the seconds in it, if it stands for seconds,
are in the range. -/
theorem parseScalar_isUsable_iff {type : FieldType} (htext : scalarText? raw = some text)
    (h : parseScalar type text = .ok (some v)) :
    v.IsUsable ↔ MapReader.cells.CountsInRange type raw := by
  induction type with
  | primitive kind =>
    obtain ⟨w, hw, hv⟩ := Outcome.map_eq_ok.mp (Outcome.mapError_eq_ok.mp h)
    obtain rfl := Option.some.inj hv
    exact parsePrimitive_isUsable_iff htext hw
  | logical identifier base representation labels ih =>
    cases representation with
    | date =>
      obtain ⟨d, hd, hv⟩ := Outcome.map_eq_ok.mp (Outcome.mapError_eq_ok.mp h)
      obtain rfl := Option.some.inj hv
      refine iff_of_true (Value.isUsable_date.mpr ?_) trivial
      exact LocalDate.isAccepted_iff_isReal.mpr (LocalDate.isReal_of_parse hd)
    | time =>
      obtain ⟨t, _, hv⟩ := Outcome.map_eq_ok.mp (Outcome.mapError_eq_ok.mp h)
      obtain rfl := Option.some.inj hv
      exact iff_of_true (Value.isUsable_time t) trivial
    | datetime =>
      obtain ⟨x, hx, hv⟩ := Outcome.map_eq_ok.mp (Outcome.mapError_eq_ok.mp h)
      obtain rfl := Option.some.inj hv
      exact iff_of_true (Value.isUsable_of_inRange (LocalDateTime.inRange_of_parseFixed hx)) trivial
    | enumeration =>
      obtain ⟨w, hw, hv⟩ := Outcome.map_eq_ok.mp h
      obtain rfl := Option.some.inj hv
      obtain ⟨i, rfl, _⟩ := FieldType.parseLabel_isScalar hw
      exact iff_of_true (Value.isUsable_number _) trivial
    | passThrough => exact ih h
    | timeWithLocalTz | custom | unknown => exact absurd h (by simp [parseScalar])
  | array | map | row | unknown => exact absurd h (by simp [parseScalar])

theorem parseText_isUsable_iff {type : FieldType} {nullable : Bool}
    (htext : scalarText? raw = some text) (h : parseText type nullable raw text = .ok v) :
    v.IsUsable ↔ MapReader.cells.CountsInRange type raw := by
  obtain ⟨parsed?, hparsed, h⟩ := Outcome.bind_eq_ok.mp h
  cases parsed? with
  | none => exact absurd h (by simp)
  | some parsed =>
    rw [← parseScalar_isUsable_iff htext hparsed]
    simp only at h
    split at h
    · rename_i habsent
      obtain ⟨_, rfl⟩ := FieldType.parseMissing_eq_ok h
      exact iff_of_true (Value.isUsable_of_isAbsent rfl) (Value.isUsable_of_isAbsent habsent)
    · obtain rfl := Except.ok.inj h
      rfl

end Cell

/-! ## Both readers -/

namespace MapReader

variable {reader : MapReader} {nullable : Bool} {raw v : Value}

/-- A value that is absent, or a scalar in a cell, is settled at every type, so that only the values
with parts and the native leaves are left. -/
theorem isUsable_or_parts {type : FieldType} (h : reader.read type nullable raw = .ok v) :
    (v.IsUsable ↔ reader.CountsInRange type raw) ∨
      (raw.isAbsent = false ∧ (reader = .cells → Cell.scalarText? raw = none)) := by
  cases habsent : raw.isAbsent with
  | true =>
    have hnull : v = .null := by
      cases reader with
      | native options =>
        rw [read, FieldType.readAvro.eq_def, if_pos habsent] at h
        exact (Avro.readAbsent_eq_ok h).2
      | cells =>
        rw [read, FieldType.parse_absent type nullable habsent] at h
        exact (FieldType.parseMissing_eq_ok h).2
    subst hnull
    exact Or.inl (iff_of_true (Value.isUsable_of_isAbsent rfl) (countsInRange_of_absent habsent))
  | false =>
    cases reader with
    | native options => exact Or.inr ⟨rfl, fun hcells => absurd hcells (by simp)⟩
    | cells =>
      cases htext : Cell.scalarText? raw with
      | some text =>
        rw [read, FieldType.parse_scalar type nullable habsent htext] at h
        exact Or.inl (Cell.parseText_isUsable_iff htext h)
      | none => exact Or.inr ⟨rfl, fun _ => rfl⟩

section

variable (hpresent : raw.isAbsent = false)
  (htext : reader = .cells → Cell.scalarText? raw = none)

include hpresent htext

/-- An array is read from a list. -/
theorem read_array_eq_ok {element : FieldType} {elementNullable : Bool}
    (h : reader.read (.array element elementNullable) nullable raw = .ok v) :
    ∃ items read, raw = .list items ∧ v = .list read ∧
      items.mapM (fun item => reader.read element elementNullable
        ((Converter.reads reader).item element item)) = .ok read := by
  cases reader with
  | native options =>
    rw [read, FieldType.readAvro, if_neg (by simp [hpresent])] at h
    obtain ⟨items, hitems, h⟩ := Outcome.bind_eq_ok.mp h
    obtain ⟨read, hread, h⟩ := Outcome.bind_eq_ok.mp h
    exact ⟨items, read, Avro.eq_list_of_toItems hitems, (Except.ok.inj h).symm, hread⟩
  | cells =>
    rw [read, FieldType.parse.eq_def, if_neg (by simp [hpresent])] at h
    simp only [htext rfl] at h
    split at h
    · rename_i items
      obtain ⟨read, hread, h⟩ := Outcome.bind_eq_ok.mp h
      exact ⟨items, read, rfl, (Except.ok.inj h).symm, hread⟩
    · exact absurd h (by simp)

/-- A map is read from a list. -/
theorem read_map_eq_ok {key value : FieldType} {valueNullable : Bool}
    (h : reader.read (.map key value valueNullable) nullable raw = .ok v) :
    ∃ items entries, raw = .list items ∧ v = .map entries ∧
      Value.readEntries (reader.split (.map key value valueNullable)) (reader.read key false)
        (reader.read value valueNullable) (Value.duplicateKey (.map key value valueNullable)) []
        items = .ok entries := by
  cases reader with
  | native options =>
    rw [read, FieldType.readAvro, if_neg (by simp [hpresent])] at h
    obtain ⟨items, hitems, h⟩ := Outcome.bind_eq_ok.mp h
    obtain ⟨entries, hread, h⟩ := Outcome.bind_eq_ok.mp h
    exact ⟨items, entries, Avro.eq_list_of_toItems hitems, (Except.ok.inj h).symm, hread⟩
  | cells =>
    rw [read, FieldType.parse.eq_def, if_neg (by simp [hpresent])] at h
    simp only [htext rfl] at h
    split at h
    · rename_i items
      obtain ⟨entries, hread, h⟩ := Outcome.bind_eq_ok.mp h
      exact ⟨items, entries, rfl, (Except.ok.inj h).symm, hread⟩
    · exact absurd h (by simp)

/-- A row is read from a record, field by field. -/
theorem read_row_eq_ok {fields : List Field}
    (h : reader.read (.row fields) nullable raw = .ok v) :
    ∃ row, v = .list row ∧ (Converter.reads reader).convertFields fields raw = .ok row := by
  have hopens : (Converter.reads reader).Opens fields raw := by
    cases reader with
    | native options =>
      rw [read, FieldType.readAvro, if_neg (by simp [hpresent])] at h
      split at h
      · assumption
      · exact absurd h (by simp)
    | cells =>
      rw [read, FieldType.parse.eq_def, if_neg (by simp [hpresent])] at h
      simp only [htext rfl] at h
      split at h
      · assumption
      · exact absurd h (by simp)
  rw [Converter.read_row hopens] at h
  obtain ⟨row, hrow, rfl⟩ := Outcome.map_eq_ok.mp h
  exact ⟨row, rfl, hrow⟩

end

/-- A cell that holds no scalar is refused at the types without parts. -/
theorem not_parse_of_leaf {type : FieldType} (hpresent : raw.isAbsent = false)
    (htext : Cell.scalarText? raw = none)
    (htype : (∀ element n, type ≠ .array element n) ∧ (∀ key value n, type ≠ .map key value n) ∧
      ∀ fields, type ≠ .row fields) : FieldType.parse type nullable raw ≠ .ok v := by
  intro h
  rw [FieldType.parse.eq_def, if_neg (by simp [hpresent])] at h
  simp only [htext] at h
  cases type with
  | array element elementNullable => exact htype.1 _ _ rfl
  | map key value valueNullable => exact htype.2.1 _ _ _ rfl
  | row fields => exact htype.2.2 _ rfl
  | primitive | logical | unknown => exact absurd h (by simp)

/-- A pass-through goes on with its base; of the other logical types, only dates and instants are
read from counts. -/
theorem readLogical_isUsable_iff {options : ConversionOptions} {identifier : String}
    {base : FieldType} {representation : Representation} {labels : Option (List String)}
    (hbase : base.readAvro options nullable raw = .ok v →
      (v.IsUsable ↔ (native options).CountsInRange base raw))
    (hpresent : raw.isAbsent = false)
    (h : (FieldType.logical identifier base representation labels).readAvro options nullable raw =
      .ok v) :
    v.IsUsable ↔
      (native options).CountsInRange (.logical identifier base representation labels) raw := by
  rw [FieldType.readAvro, if_neg (by simp [hpresent])] at h
  cases representation with
  | date => exact Avro.readDate_isUsable_iff options h
  | timeWithLocalTz => exact Avro.readInstant_isUsable_iff h
  | passThrough => exact hbase h
  | time =>
    obtain ⟨t, rfl, _⟩ := Avro.readTime_eq_ok h
    exact iff_of_true (Value.isUsable_time t) trivial
  | datetime =>
    obtain ⟨x, rfl, hx⟩ := Avro.readDateTime_eq_ok h
    exact iff_of_true (Value.isUsable_of_inRange hx) trivial
  | enumeration | custom | unknown => exact absurd h (by simp)

/-- Fields are usable just if the counts in each of them are in the range. -/
theorem fields_isUsable_iff {fields : List Field} {record : Value} {row : Row}
    (hfields : ∀ f ∈ fields, ∀ {nullable raw v}, reader.read f.type nullable raw = .ok v →
      (v.IsUsable ↔ reader.CountsInRange f.type raw))
    (h : (Converter.reads reader).convertFields fields record = .ok row) :
    (∀ v ∈ row, v.IsUsable) ↔ reader.FieldsInRange fields record := by
  have hplaces : ∀ p ∈ (Converter.reads reader).places fields record, ∀ v,
      ((Converter.reads reader).convert p.2).mapError (Failure.inField p.1) = .ok v →
        (v.IsUsable ↔ ∀ raw, p.2.found = .ok raw → reader.CountsInRange p.2.type raw) := by
    intro p hp v hv
    obtain ⟨f, hf, rfl⟩ := List.mem_map.mp hp
    obtain ⟨raw, hraw, hread⟩ := Outcome.bind_eq_ok.mp (Outcome.mapError_eq_ok.mp hv)
    rw [hfields f hf hread]
    exact ⟨fun h other hother => Except.ok.inj (hraw.symm.trans hother) ▸ h, fun h => h raw hraw⟩
  rw [Outcome.forall_mapM_iff h hplaces, fieldsInRange_iff]
  exact List.forall_mem_map

/-- What a reader gives at a place is usable just if all counts that it finds there are in the
range. -/
theorem read_isUsable_iff {type : FieldType} (h : reader.read type nullable raw = .ok v) :
    v.IsUsable ↔ reader.CountsInRange type raw := by
  induction type generalizing nullable raw v with
  | primitive kind =>
    rcases isUsable_or_parts h with hiff | ⟨hpresent, htext⟩
    · exact hiff
    · cases reader with
      | native options =>
        rw [read, FieldType.readAvro, if_neg (by simp [hpresent])] at h
        exact Avro.readPrimitive_isUsable_iff h
      | cells => exact absurd h (not_parse_of_leaf hpresent (htext rfl) (by simp))
  | array element elementNullable ih =>
    rcases isUsable_or_parts h with hiff | ⟨hpresent, htext⟩
    · exact hiff
    · obtain ⟨items, read, rfl, rfl, hread⟩ := read_array_eq_ok hpresent htext h
      rw [Value.isUsable_list, Outcome.forall_mapM_iff hread fun _ _ _ hitem => ih hitem,
        CountsInRange]
      exact ⟨fun h other hother => Value.list.inj hother ▸ h, fun h => h items rfl⟩
  | map key value valueNullable ihKey ihValue =>
    rcases isUsable_or_parts h with hiff | ⟨hpresent, htext⟩
    · exact hiff
    · obtain ⟨items, entries, rfl, rfl, hread⟩ := read_map_eq_ok hpresent htext h
      -- keys are stored without the sign of a zero, which no count has a part in
      rw [Value.isUsable_map, Value.forall_readEntries_iff
        (fun _ _ hkey => Value.isUsable_asKey.trans (ihKey hkey)) (fun _ _ hvalue => ihValue hvalue)
        hread, CountsInRange]
      constructor
      · exact fun h other hother => Value.list.inj hother ▸ h.2
      · exact fun h => ⟨by simp, h items rfl⟩
  | row fields ih =>
    rcases isUsable_or_parts h with hiff | ⟨hpresent, htext⟩
    · exact hiff
    · obtain ⟨row, rfl, hrow⟩ := read_row_eq_ok hpresent htext h
      rw [Value.isUsable_list, CountsInRange]
      exact fields_isUsable_iff (fun f hf _ _ _ hread => ih f hf hread) hrow
  | logical identifier base representation labels ih =>
    rcases isUsable_or_parts h with hiff | ⟨hpresent, htext⟩
    · exact hiff
    · cases reader with
      | native options => exact readLogical_isUsable_iff (fun hread => ih hread) hpresent h
      | cells => exact absurd h (not_parse_of_leaf hpresent (htext rfl) (by simp))
  | unknown kind =>
    rcases isUsable_or_parts h with hiff | ⟨hpresent, htext⟩
    · exact hiff
    · cases reader with
      | native options =>
        rw [read, FieldType.readAvro, if_neg (by simp [hpresent])] at h
        exact absurd h (by simp)
      | cells => exact absurd h (not_parse_of_leaf hpresent (htext rfl) (by simp))

/-! ## Rows -/

/-- The row that a reader gives of a record. -/
def readRow (reader : MapReader) (schema : Schema) (record : Value) : Except Failure Row :=
  match reader with
  | native options => Row.ofAvro options schema record
  | cells => Row.ofTableRow schema record

theorem readRow_eq (schema : Schema) (record : Value) :
    reader.readRow schema record = (Converter.reads reader).convertFields schema record := by
  cases reader with
  | native options => exact (Converter.convertFields_native options schema record).symm
  | cells => exact (Converter.convertFields_cells schema record).symm

/-- A row that a reader gives has only valid instants and real dates, at any depth, just if all
counts that the reader finds in the record are in the range. -/
theorem readRow_isUsable_iff {schema : Schema} {record : Value} {row : Row}
    (h : reader.readRow schema record = .ok row) :
    (∀ v ∈ row, v.IsUsable) ↔ reader.FieldsInRange schema record :=
  fields_isUsable_iff (fun _ _ _ _ _ hread => read_isUsable_iff hread)
    (readRow_eq schema record ▸ h)

/-- The last second in the range, and a text in the fixed format, in a list. -/
theorem readRow_isUsable_iff_lastSecond :
    Row.ofTableRow [⟨"ts", .array (.primitive .datetime) false, false, none⟩]
        (.record [("ts", .list [.string "8640000000000", .string "2024-01-31 10:00:00 UTC"])]) =
      .ok [.list [.instant (.at 8640000000000000), .instant (.at 1706695200000)]] ∧
    ∀ v ∈ [Value.list [.instant (.at 8640000000000000), .instant (.at 1706695200000)]],
      v.IsUsable := by
  let schema : Schema := [⟨"ts", .array (.primitive .datetime) false, false, none⟩]
  let record : Value :=
    .record [("ts", .list [.string "8640000000000", .string "2024-01-31 10:00:00 UTC"])]
  have hrow : MapReader.cells.readRow schema record =
      .ok [.list [.instant (.at 8640000000000000), .instant (.at 1706695200000)]] := rfl
  have hrange : MapReader.cells.FieldsInRange schema record := by
    refine ⟨fun raw hraw => ?_, trivial⟩
    obtain rfl := Except.ok.inj hraw
    rintro items hitems item hitem - text htext - hutc
    obtain rfl := Value.list.inj hitems
    rcases List.mem_cons.mp hitem with rfl | hitem
    · obtain rfl := Option.some.inj htext
      decide
    · obtain rfl := List.mem_singleton.mp hitem
      obtain rfl := Option.some.inj htext
      exact absurd hutc (by decide)
  exact ⟨hrow, (readRow_isUsable_iff hrow).mpr hrange⟩

/-- Counts beyond the range go through in all three forms: as days, as microseconds and as
seconds in a text. -/
theorem readRow_unusable :
    (Row.ofAvro {} [⟨"d", .date, false, none⟩]
        (.record [("d", .number (Double.ofInt 100000001))]) = .ok [.date .invalid] ∧
      ¬ (Value.date .invalid).IsUsable) ∧
    (Row.ofAvro {} [⟨"t", .primitive .datetime, false, none⟩]
        (.record [("t", .integer 9000000000000000000)]) = .ok [.instant .invalid] ∧
      Row.ofTableRow [⟨"t", .primitive .datetime, false, none⟩]
        (.record [("t", .string "1e13")]) = .ok [.instant .invalid] ∧
      ¬ (Value.instant .invalid).IsUsable) := by
  refine ⟨⟨rfl, fun h => ?_⟩, rfl, rfl, fun h => ?_⟩
  · exact LocalDate.isAccepted_iff_isReal.mp (Value.isUsable_date.mp h)
  · exact Value.isUsable_instant.mp h

end MapReader

end WarehouseRows
