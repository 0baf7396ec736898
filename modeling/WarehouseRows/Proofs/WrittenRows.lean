import WarehouseRows.Proofs.KeptItems
import WarehouseRows.Proofs.WrittenScalars

/-!
# Table rows that are read

A row whose values have the shapes that its schema asks for is written to a table row, or refused
with a conversion error. What is written is not always read: there are scalars that have a text and
no reader for it, a year after 9999 among them. The table row is read just if all scalars of the
row are readable; nothing else on the way, neither arrays nor maps nor rows, can turn the reader
away, unless an item of an array is mistaken for a wrapped cell.

## Main results

* `FieldType.readJustIf_encode`: which cells are read.
* `Row.exists_ofTableRow_toTableRow_iff`: which table rows are read.
-/

namespace WarehouseRows

/-! ## Entries -/

/-- Entries that are written one by one are read just if the key and the value of each is: keys
that are apart never stand in the way of each other. -/
theorem Value.exists_readEntries_iff {split : Value → Except Failure (Value × Value)}
    {readKey readValue : Value → Except Failure Value} {duplicate : Value → Failure}
    {write : Value × Value → Except Failure Value} {P Q : Value → Prop}
    {es : List (Value × Value)} {items : List Value} (hwrite : es.mapM write = .ok items)
    (h : ∀ e ∈ es, ∀ item, write e = .ok item → ∃ rawKey rawValue,
      split item = .ok (rawKey, rawValue) ∧ ReadJustIf (P e.1) e.1 (readKey rawKey) ∧
        ReadJustIf (Q e.2) e.2 (readValue rawValue))
    (hapart : KeysApart es) {entries : List (Value × Value)}
    (hnew : ∀ e ∈ es, ∀ stored ∈ entries, ∀ key, key.StandsFor e.1 →
      stored.1.sameKey key = false) :
    (∃ read, readEntries split readKey readValue duplicate entries items = .ok read) ↔
      ∀ e ∈ es, P e.1 ∧ Q e.2 := by
  -- the keys that were read so far are apart from whatever is read for a key that is to come
  induction es generalizing items entries with
  | nil =>
    obtain rfl : [] = items := Except.ok.inj hwrite
    simp [readEntries]
  | cons e es ih =>
    obtain ⟨item, items, hitem, hitems, rfl⟩ := Outcome.mapM_cons_eq_ok.mp hwrite
    obtain ⟨rawKey, rawValue, hsplit, hkey, hvalue⟩ := h e List.mem_cons_self item hitem
    obtain ⟨hfirst, hrest⟩ := List.pairwise_cons.mp hapart
    have hfresh {key : Value} (hread : readKey rawKey = .ok key) : hasKey entries key = false := by
      apply hasKey_eq_false.mpr
      intro stored hstored
      exact hnew e List.mem_cons_self stored hstored key (hkey.standsFor key hread)
    have hothers {key : Value} (hread : readKey rawKey = .ok key) (value : Value) :
        (∃ read, readEntries split readKey readValue duplicate (entries ++ [(key.asKey, value)])
          items = .ok read) ↔ ∀ e ∈ es, P e.1 ∧ Q e.2 := by
      apply ih hitems (fun e he => h e (List.mem_cons_of_mem _ he)) hrest
      intro e' he' stored hstored key' hstands
      rcases List.mem_append.mp hstored with hstored | hstored
      · exact hnew e' (List.mem_cons_of_mem _ he') stored hstored key' hstands
      · rw [List.mem_singleton.mp hstored]
        exact sameKey_of_standsFor (hkey.standsFor key hread) hstands (hfirst e' he')
    rw [List.forall_mem_cons, ← hkey.iff, ← hvalue.iff]
    constructor
    · rintro ⟨read, hread⟩
      obtain ⟨rawKey', rawValue', key, value, hsplit', hkeyRead, _, hvalueRead, hread⟩ :=
        readEntries_cons_eq_ok hread
      obtain ⟨rfl, rfl⟩ := Prod.mk.inj (Except.ok.inj (hsplit.symm.trans hsplit'))
      exact ⟨⟨⟨key, hkeyRead⟩, value, hvalueRead⟩, (hothers hkeyRead value).mp ⟨read, hread⟩⟩
    · rintro ⟨⟨⟨key, hkeyRead⟩, value, hvalueRead⟩, hall⟩
      obtain ⟨read, hread⟩ := (hothers hkeyRead value).mpr hall
      refine ⟨read, ?_⟩
      simp only [readEntries, hsplit, hkeyRead, hvalueRead, Outcome.ok_bind]
      rw [if_neg (by simp [hfresh hkeyRead]), storeEntry, if_neg (by simp [hfresh hkeyRead])]
      exact hread

namespace FieldType

/-! ## Cells -/

theorem isAbsent_of_isShaped {type : FieldType} {value : Value} (h : type.Inhabits IsShaped value) :
    value.isAbsent = false := by
  refine of_inhabits (P := fun value => value.isAbsent = false) (fun _ => rfl) (fun _ => rfl)
    (fun type value hscalar => ?_) h
  cases type with
  | primitive kind => exact PrimitiveKind.isAbsent_of_isShaped hscalar
  | logical identifier base representation labels =>
    exact Representation.isAbsent_of_isShaped hscalar
  | _ => exact absurd hscalar id

theorem orNull_of_isShaped {type : FieldType} {nullable : Bool} {value : Value}
    (h : type.Admits IsShaped nullable value) : value.orNull = value := by
  rcases h with ⟨_, rfl⟩ | h
  · rfl
  · exact Value.orNull_of_present (isAbsent_of_isShaped h)

/-- The cell of a missing value is read as one. -/
theorem readJustIf_null {type : FieldType} {nullable : Bool} {cell : Value} {P : Prop}
    (hP : P) (hcell : encode type nullable .null = .ok cell) :
    ReadJustIf P .null (parse type nullable cell) := by
  rw [encode_null] at hcell
  obtain ⟨rfl, rfl⟩ := Cell.ofNull_eq_ok hcell
  exact ReadJustIf.of_ok (parse_absent type true rfl) hP (Or.inl rfl)

/-- A text is read as the scalar that it stands for. -/
theorem parse_string {type : FieldType} {nullable : Bool} {value : Value} {text : String}
    {P : Prop} {outcome : Except Failure Value} (hvalue : value.isAbsent = false)
    (hscalar : Cell.parseScalar type text = outcome.map some) (h : ReadJustIf P value outcome) :
    parse type nullable (.string text) = outcome := by
  rw [parse_scalar type nullable rfl rfl, Cell.parseText, hscalar]
  cases houtcome : outcome with
  | error e => rfl
  | ok back =>
    have hpresent := Value.isAbsent_of_standsFor (h.standsFor back houtcome) hvalue
    simp only [Except.map, Outcome.ok_bind, hpresent]
    rfl

theorem readJustIf_primitive {kind : PrimitiveKind} {value cell : Value} {nullable : Bool}
    (hshape : kind.IsShaped value) (hcell : encode (.primitive kind) nullable value = .ok cell) :
    ReadJustIf (kind.IsReadable value) value (parse (.primitive kind) nullable cell) := by
  have hpresent := PrimitiveKind.isAbsent_of_isShaped hshape
  rw [encode, if_neg (Cell.isNull_of_present hpresent)] at hcell
  obtain ⟨text, rfl⟩ := Cell.ofPrimitive_eq_ok hcell
  have hread := (PrimitiveKind.readJustIf_parseText hshape hcell).mapError (f := Failure.conversion)
  rw [parse_string hpresent _ hread]
  · exact hread
  · rw [Cell.parseScalar]
    cases kind.parseText text <;> rfl

theorem readJustIf_logical {identifier : String} {base : FieldType}
    {representation : Representation} {labels : Option (List String)} {value cell : Value}
    {nullable : Bool} (htext : (FieldType.logical identifier base representation labels).IsTextual)
    (hshape : representation.IsShaped value)
    (hcell : encode (.logical identifier base representation labels) nullable value = .ok cell) :
    ReadJustIf (representation.IsReadable value) value
      (parse (.logical identifier base representation labels) nullable cell) := by
  have hpresent := Representation.isAbsent_of_isShaped hshape
  have hlabels : representation = .enumeration → (labels.getD []).Nodup := by
    rintro rfl
    simpa [IsTextual] using htext
  rw [encode, if_neg (Cell.isNull_of_present hpresent)] at hcell
  obtain ⟨text, rfl⟩ := Cell.ofLogical_eq_ok hcell
  obtain ⟨outcome, hscalar, hread⟩ :=
    Representation.exists_readJustIf identifier base hlabels hshape hcell
  rw [parse_string hpresent hscalar hread]
  exact hread

/-- The items of an array are read one by one. -/
theorem readJustIf_array {element : FieldType} {elementNullable nullable : Bool}
    {items cells : List Value} {P : Value → Prop}
    (hcells : items.mapM (fun item => encode element elementNullable item) = .ok cells)
    (hitems : ∀ item ∈ items, ∀ cell, encode element elementNullable item = .ok cell →
      Cell.unwrapElement element cell = cell ∧
        ReadJustIf (P item) item (parse element elementNullable cell)) :
    ReadJustIf (∀ item ∈ items, P item) (.list items)
      (parse (.array element elementNullable) nullable (.list cells)) := by
  rw [parse_array_list]
  apply ReadJustIf.of_objects fun _ => ⟨rfl, rfl⟩
  rw [Outcome.exists_mapM_iff]
  apply Outcome.forall_mapM_iff hcells
  intro item hitem cell hcell
  obtain ⟨hunwrap, hread⟩ := hitems item hitem cell hcell
  rw [hunwrap, hread.iff]

/-- The entries of a map are read one by one. -/
theorem readJustIf_map {keyType valueType : FieldType} {valueNullable nullable : Bool}
    {entries : List (Value × Value)} {cells : List Value} {P Q : Value → Prop}
    (happart : Value.KeysApart entries)
    (hcells : entries.mapM (fun e => do
      let key ← encode keyType false e.1
      let cell ← encode valueType valueNullable e.2
      pure (Cell.entry key cell)) = .ok cells)
    (hentries : ∀ e ∈ entries,
      (∀ cell, encode keyType false e.1 = .ok cell →
        ReadJustIf (P e.1) e.1 (parse keyType false cell)) ∧
      ∀ cell, encode valueType valueNullable e.2 = .ok cell →
        ReadJustIf (Q e.2) e.2 (parse valueType valueNullable cell)) :
    ReadJustIf (∀ e ∈ entries, P e.1 ∧ Q e.2) (.map entries)
      (parse (.map keyType valueType valueNullable) nullable (.list cells)) := by
  rw [parse_map_list]
  apply ReadJustIf.of_objects fun _ => ⟨rfl, rfl⟩
  refine Value.exists_readEntries_iff hcells ?_ happart (by simp)
  intro e he item hitem
  obtain ⟨key, hkey, hitem⟩ := Outcome.bind_eq_ok.mp hitem
  obtain ⟨cell, hcell, hitem⟩ := Outcome.bind_eq_ok.mp hitem
  obtain rfl := Except.ok.inj hitem
  exact ⟨key, cell, rfl, (hentries e he).1 key hkey, (hentries e he).2 cell hcell⟩

/-- The fields of a row are read one by one, from any record that holds their cells. -/
theorem exists_parseFields_iff {fields : List Field} {row : Row} {cells : List (String × Value)}
    {scalar : FieldType → Value → Prop} (hlength : row.length = fields.length)
    (hcells : encodeFields fields row = .ok cells)
    (hvalues : ∀ p ∈ fields.zip row, p.2.orNull = p.2 ∧
      ∀ cell, encode p.1.type p.1.nullable p.2 = .ok cell →
        ReadJustIf (p.1.type.Admits scalar p.1.nullable p.2) p.2
          (parse p.1.type p.1.nullable cell))
    {tableRow : Value} (hfound : ∀ p ∈ cells, tableRow.fieldOf p.1 = .ok p.2) :
    (∃ back, parseFields fields tableRow = .ok back) ↔ RowInhabits scalar fields row := by
  induction fields generalizing row cells with
  | nil =>
    obtain rfl := List.length_eq_zero_iff.mp hlength
    simp [parseFields, RowInhabits]
  | cons f fields ih =>
    cases row with
    | nil => exact absurd hlength (by simp)
    | cons value row =>
      rw [List.zip_cons_cons, List.forall_mem_cons] at hvalues
      obtain ⟨⟨hpresent, hvalue⟩, hrow⟩ := hvalues
      obtain ⟨cell, others, hcell, hothers, rfl⟩ := encodeFields_cons_eq_ok hcells
      rw [List.headD_cons, hpresent] at hcell
      rw [List.drop_succ_cons, List.drop_zero] at hothers
      have hread := hvalue cell hcell
      have hrest := ih (by simpa using hlength) hothers hrow fun p hp =>
        hfound p (List.mem_cons_of_mem _ hp)
      have hfirst : ((tableRow.fieldOf f.name).bind (parse f.type f.nullable)).mapError
          (Failure.inField f.name) =
            (parse f.type f.nullable cell).mapError (Failure.inField f.name) := by
        rw [hfound (f.name, cell) List.mem_cons_self]
        rfl
      rw [RowInhabits, ← hrest]
      constructor
      · rintro ⟨back, hback⟩
        rw [parseFields, hfirst] at hback
        obtain ⟨first, hfirst, hback⟩ := Outcome.bind_eq_ok.mp hback
        obtain ⟨read, hread', _⟩ := Outcome.bind_eq_ok.mp hback
        exact ⟨hread.iff.mp ⟨first, Outcome.mapError_eq_ok.mp hfirst⟩, read, hread'⟩
      · rintro ⟨hadmits, read, hread'⟩
        obtain ⟨first, hback⟩ := hread.iff.mpr hadmits
        refine ⟨first :: read, ?_⟩
        rw [parseFields, hfirst, hback, hread']
        rfl

/-! ## Any type -/

/-- What holds of the values of a type holds of those of a place of the type. -/
theorem readJustIf_admits {type : FieldType} {nullable : Bool} {value cell : Value}
    (htype : type.Inhabits IsShaped value →
      ReadJustIf (type.Inhabits IsReadable value) value (parse type nullable cell))
    (hshape : type.Admits IsShaped nullable value)
    (hcell : encode type nullable value = .ok cell) :
    ReadJustIf (type.Admits IsReadable nullable value) value (parse type nullable cell) := by
  rcases hshape with ⟨rfl, rfl⟩ | hshape
  · exact readJustIf_null (Or.inl ⟨rfl, rfl⟩) hcell
  · exact (htype hshape).congr (admits_iff_of_present (isAbsent_of_isShaped hshape)).symm

/-- The cell of a value of the right shape is read just if all scalars in the value are
readable. -/
theorem readJustIf_encode {type : FieldType} {value cell : Value} {nullable : Bool}
    (htext : type.IsTextual) (hshape : type.Inhabits IsShaped value)
    (hkept : type.KeepsItems value) (hcell : encode type nullable value = .ok cell) :
    ReadJustIf (type.Inhabits IsReadable value) value (parse type nullable cell) := by
  induction type generalizing value cell nullable with
  | primitive kind => exact readJustIf_primitive hshape hcell
  | array element elementNullable ih =>
    obtain ⟨items, rfl, hitems⟩ := hshape
    rw [IsTextual] at htext
    obtain ⟨cells, hcells, hcell⟩ := Outcome.bind_eq_ok.mp hcell
    obtain rfl := Except.ok.inj hcell
    refine (readJustIf_array hcells fun item hitem cell hcell => ?_).congr
      inhabits_list_iff.symm
    obtain ⟨hmistaken, hkept⟩ := hkept items rfl item hitem
    exact ⟨unwrapElement_of_encode hmistaken (namesApart_of_isTextual htext) hcell,
      readJustIf_admits (ih htext · hkept hcell) (hitems item hitem) hcell⟩
  | map keyType valueType valueNullable ihKey ihValue =>
    obtain ⟨entries, rfl, happart, hentries⟩ := hshape
    rw [IsTextual] at htext
    obtain ⟨cells, hcells, hcell⟩ := Outcome.bind_eq_ok.mp hcell
    obtain rfl := Except.ok.inj hcell
    refine (readJustIf_map happart hcells fun e he => ?_).congr
      (inhabits_map_iff happart).symm
    obtain ⟨hkey, hvalue⟩ := hentries e he
    obtain ⟨hkeptKey, hkeptValue⟩ := hkept entries rfl e he
    exact ⟨fun cell hcell => ihKey htext.1 hkey hkeptKey hcell,
      fun cell hcell => readJustIf_admits (ihValue htext.2 · hkeptValue hcell) hvalue hcell⟩
  | row fields ih =>
    obtain ⟨items, rfl, hitems⟩ := hshape
    rw [IsTextual] at htext
    obtain ⟨hlength, hall⟩ := rowInhabits_iff.mp hitems
    obtain ⟨cells, hcells, rfl⟩ := exists_cells_of_encode_row hcell
    rw [parse_row nullable htext.1 hcells]
    apply ReadJustIf.of_objects fun _ => ⟨rfl, rfl⟩
    rw [inhabits_row_iff]
    apply exists_parseFields_iff hlength hcells
    · intro p hp
      refine ⟨orNull_of_isShaped (hall p hp), fun cell hcell => ?_⟩
      have hf := (List.of_mem_zip hp).1
      have hkept := rowKeepsItems_iff.mp (hkept items rfl) p hp
      exact readJustIf_admits (ih p.1 hf (isTextual_of_mem htext.2 hf) · hkept hcell) (hall p hp)
        hcell
    · intro p hp
      exact Value.fieldOf_cells htext.1 (names_of_encodeFields hcells) hp
  | logical identifier base representation labels ih =>
    have hpass : representation ≠ .passThrough := by
      rintro rfl
      simp [IsTextual] at htext
    rw [Inhabits, if_neg hpass] at hshape ⊢
    exact readJustIf_logical htext hshape hcell
  | unknown kind => exact absurd hshape id

end FieldType

/-! ## Table rows -/

namespace Row

/-- A row whose values have the shapes that the schema asks for is refused with a conversion error,
or its table row is read just if all scalars of the row are readable: all numbers are integers of
the widths of their kinds, all dates days of the calendar, and the years of all instants and of all
dates with a time have four digits. -/
theorem exists_ofTableRow_toTableRow_iff {schema : Schema} {row : Row}
    (hschema : (FieldType.row schema).IsTextual)
    (hrow : FieldType.RowInhabits FieldType.IsShaped schema row)
    (hkept : FieldType.RowKeepsItems schema row) :
    (∃ c, row.toTableRow schema = .error (.conversion c)) ∨
      ∃ tableRow, row.toTableRow schema = .ok tableRow ∧
        ((∃ back, Row.ofTableRow schema tableRow = .ok back) ↔
          FieldType.RowInhabits FieldType.IsReadable schema row) := by
  cases h : row.toTableRow schema with
  | error e =>
    obtain ⟨c, rfl⟩ := toTableRow_eq_error h
    exact Or.inl ⟨c, rfl⟩
  | ok tableRow =>
    right
    refine ⟨tableRow, rfl, ?_⟩
    rw [toTableRow_eq_encode] at h
    have hkept : (FieldType.row schema).KeepsItems (.list row) := by
      intro items hitems
      rwa [← Value.list.inj hitems]
    have hread := FieldType.readJustIf_encode hschema (FieldType.inhabits_row_iff.mpr hrow) hkept h
    obtain ⟨cells, hcells, rfl⟩ := FieldType.exists_cells_of_encode_row h
    rw [FieldType.IsTextual] at hschema
    rw [FieldType.parse_row false hschema.1 hcells] at hread
    rw [← FieldType.inhabits_row_iff, ← hread.iff]
    simp only [Row.ofTableRow, Outcome.map_eq_ok]
    constructor
    · rintro ⟨back, hback⟩
      exact ⟨_, back, hback, rfl⟩
    · rintro ⟨_, back, hback, _⟩
      exact ⟨back, hback⟩

/-- The last millisecond of the year 9999, a date in a later year, a decimal of a negative scale and
a small number. -/
theorem exists_ofTableRow_toTableRow_iff_lastYear :
    let schema : Schema :=
      [⟨"t", .primitive .datetime, false, none⟩, ⟨"days", .array .date true, false, none⟩,
        ⟨"d", .primitive .decimal, true, none⟩, ⟨"n", .primitive .byte, false, none⟩]
    let row : Row :=
      [.instant (.at 253402300799999), .list [.date (.on (.ofInt 12026) 2 28), .null],
        .decimal ⟨-7, Scale.ofInt (-2)⟩, .number (Double.ofInt (-12))]
    ∃ tableRow, row.toTableRow schema = .ok tableRow ∧
      ∃ back, Row.ofTableRow schema tableRow = .ok back := by
  intro schema row
  have hschema : (FieldType.row schema).IsTextual := by
    simp [schema, FieldType.IsTextual, FieldType.AllTextual, Schema.NamesApart,
      Members.reservedName, FieldType.date]
  have hreal : LocalDate.IsReal (.on (.ofInt 12026) 2 28) :=
    (by decide : LocalDate.isReal 12026 2 28 = true)
  have hshape : FieldType.RowInhabits FieldType.IsShaped schema row := by
    refine ⟨Or.inr ⟨_, rfl⟩, Or.inr ⟨_, rfl, ?_⟩, Or.inr ⟨_, rfl⟩,
      Or.inr ⟨_, rfl, Double.inNormalForm_ofInt _⟩, trivial⟩
    simp only [List.forall_mem_cons]
    exact ⟨Or.inr ⟨_, rfl, Or.inr hreal⟩, Or.inl ⟨rfl, rfl⟩, by simp⟩
  have hreadable : FieldType.RowInhabits FieldType.IsReadable schema row := by
    refine ⟨Or.inr ⟨_, rfl, _, rfl, by decide, by decide⟩, Or.inr ⟨_, rfl, ?_⟩, Or.inr ⟨_, rfl⟩,
      Or.inr ⟨_, -12, rfl, Double.whole?_ofInt (by decide), by decide⟩, trivial⟩
    simp only [List.forall_mem_cons]
    exact ⟨Or.inr ⟨_, rfl, hreal⟩, Or.inl ⟨rfl, rfl⟩, by simp⟩
  have hkept : FieldType.RowKeepsItems schema row := by
    simp [schema, row, FieldType.RowKeepsItems, FieldType.KeepsItems, FieldType.IsMistaken,
      FieldType.WrapsRow, FieldType.date]
  obtain ⟨tableRow, hwritten⟩ : ∃ tableRow, row.toTableRow schema = .ok tableRow := ⟨_, rfl⟩
  obtain ⟨c, hrefused⟩ | ⟨tableRow, hwritten, hiff⟩ :=
    exists_ofTableRow_toTableRow_iff hschema hshape hkept
  · exact absurd (hrefused.symm.trans hwritten) (by simp)
  · exact ⟨tableRow, hwritten, hiff.mpr hreadable⟩

/-- The first millisecond of the year 10000 is written, and the text is refused; and so is the
table row in which a text under the reserved name got lost. -/
theorem ofTableRow_toTableRow_refused :
    (Row.toTableRow [.instant (.at 253402300800000)] [⟨"t", .primitive .datetime, false, none⟩] =
        .ok (.record [("t", .string "10000-01-01 00:00:00.000 UTC")]) ∧
      Row.ofTableRow [⟨"t", .primitive .datetime, false, none⟩]
        (.record [("t", .string "10000-01-01 00:00:00.000 UTC")]) =
          .error (Failure.inField "t"
            (.conversion (unreadableAs "a TIMESTAMP" "10000-01-01 00:00:00.000 UTC")))) ∧
    Row.toTableRow [.string "a"] [⟨Members.reservedName, .primitive .string, false, none⟩] =
        .ok (.record []) ∧
      ∃ e, Row.ofTableRow [⟨Members.reservedName, .primitive .string, false, none⟩] (.record []) =
        .error e :=
  ⟨⟨rfl, rfl⟩, rfl, _, rfl⟩

end Row

end WarehouseRows
