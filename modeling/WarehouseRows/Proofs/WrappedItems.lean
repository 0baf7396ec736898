import WarehouseRows.Proofs.KeptItems
import WarehouseRows.Proofs.ReaderSoundness

/-!
# Rows that are taken for wrapped cells

A row that looks like a wrapped cell is taken for one: its record is taken off, and what is
read is the row inside at the type of the row around it. That is never the row that was
written, at no depth and whatever the rows hold, so a list of rows is read back if and only
if no array in it has such an item.

## Main definitions

* `FieldType.ReturnsKept`: that only values whose items are kept come back.
-/

namespace WarehouseRows

namespace FieldType

/-! ## Values that are written -/

/-- The values of a row are written if each of them is. -/
theorem exists_encodeFields {fields : List Field} {row : Row} (hlength : row.length = fields.length)
    (h : ∀ p ∈ fields.zip row, ∃ cell, encode p.1.type p.1.nullable p.2.orNull = .ok cell) :
    ∃ cells, encodeFields fields row = .ok cells := by
  induction fields generalizing row with
  | nil => exact ⟨[], rfl⟩
  | cons f fields ih =>
    cases row with
    | nil => exact absurd hlength (by simp)
    | cons value row =>
      rw [List.zip_cons_cons, List.forall_mem_cons] at h
      obtain ⟨⟨cell, hcell⟩, hrow⟩ := h
      obtain ⟨cells, hcells⟩ := ih (by simpa using hlength) hrow
      refine ⟨(f.name, cell) :: cells, ?_⟩
      rw [encodeFields, List.headD_cons, hcell, List.drop_succ_cons, List.drop_zero, hcells]
      rfl

theorem exists_cell_orNull {type : FieldType} {nullable : Bool} {value : Value}
    (htype : type.Inhabits IsExact value → ∃ cell, encode type nullable value = .ok cell)
    (h : Value.OrNull nullable (type.Inhabits IsExact) value) :
    ∃ cell, encode type nullable value = .ok cell := by
  rcases h with ⟨rfl, rfl⟩ | h
  · exact ⟨.null, encode_null type true⟩
  · exact htype h

theorem exists_cell_array {element : FieldType} {elementNullable nullable : Bool}
    {items : List Value}
    (h : ∀ item ∈ items, ∃ cell, encode element elementNullable item = .ok cell) :
    ∃ cell, encode (.array element elementNullable) nullable (.list items) = .ok cell := by
  obtain ⟨cells, hcells, _⟩ := Outcome.exists_mapM (P := fun _ => True) fun item hitem => by
    obtain ⟨cell, hcell⟩ := h item hitem
    exact ⟨cell, hcell, trivial⟩
  refine ⟨.list cells, ?_⟩
  rw [encode, hcells]
  rfl

theorem exists_cell_map {keyType valueType : FieldType} {valueNullable nullable : Bool}
    {entries : List (Value × Value)}
    (h : ∀ e ∈ entries, (∃ key, encode keyType false e.1 = .ok key) ∧
      ∃ cell, encode valueType valueNullable e.2 = .ok cell) :
    ∃ cell, encode (.map keyType valueType valueNullable) nullable (.map entries) = .ok cell := by
  have hrecord : ∀ e ∈ entries, ∃ record, (do
      let key ← encode keyType false e.1
      let cell ← encode valueType valueNullable e.2
      pure (Cell.entry key cell)) = .ok record ∧ True := by
    intro e he
    obtain ⟨⟨key, hkey⟩, cell, hcell⟩ := h e he
    refine ⟨Cell.entry key cell, ?_, trivial⟩
    rw [hkey, Outcome.ok_bind, hcell]
    rfl
  obtain ⟨records, hrecords, _⟩ := Outcome.exists_mapM hrecord
  refine ⟨.list records, ?_⟩
  rw [encode, hrecords]
  rfl

theorem exists_cell_row {fields : List Field} {items : Row} {nullable : Bool}
    (hlength : items.length = fields.length)
    (h : ∀ p ∈ fields.zip items, ∃ cell, encode p.1.type p.1.nullable p.2.orNull = .ok cell) :
    ∃ cell, encode (.row fields) nullable (.list items) = .ok cell := by
  obtain ⟨cells, hcells⟩ := exists_encodeFields hlength h
  refine ⟨Value.ofAssignments cells, ?_⟩
  rw [encode, if_neg (Cell.isNull_of_present rfl), if_pos hlength, hcells]
  rfl

/-- Values of exact scalars are written, whether their items are kept or not. -/
theorem exists_cell {type : FieldType} {value : Value} {nullable : Bool} (htext : type.IsTextual)
    (h : type.Inhabits IsExact value) : ∃ cell, encode type nullable value = .ok cell := by
  induction type generalizing value nullable with
  | array element elementNullable ih =>
    obtain ⟨items, rfl, hitems⟩ := h
    rw [IsTextual] at htext
    exact exists_cell_array fun item hitem => exists_cell_orNull (ih htext) (hitems item hitem)
  | map keyType valueType valueNullable ihKey ihValue =>
    obtain ⟨entries, rfl, _, hentries⟩ := h
    rw [IsTextual] at htext
    refine exists_cell_map fun e he => ?_
    obtain ⟨hkey, hvalue⟩ := hentries e he
    exact ⟨ihKey htext.1 hkey, exists_cell_orNull (ihValue htext.2) hvalue⟩
  | row fields ih =>
    obtain ⟨items, rfl, hitems⟩ := h
    rw [IsTextual] at htext
    obtain ⟨hlength, hall⟩ := rowInhabits_iff.mp hitems
    refine exists_cell_row hlength fun p hp => ?_
    have hf := (List.of_mem_zip hp).1
    rw [orNull_of_admits (hall p hp)]
    exact exists_cell_orNull (ih p.1 hf (isTextual_of_mem htext.2 hf)) (hall p hp)
  | primitive | logical | unknown =>
    have hreturns : Returns _ nullable value := returns_of_keepsItems htext h trivial
    obtain ⟨cell, hcell, _⟩ := hreturns
    exact ⟨cell, hcell⟩

end FieldType

/-! ## Parts of a value that comes back -/

namespace Value

theorem same_list {value : Value} {items : List Value} (h : value.Same (.list items)) :
    ∃ backs, value = .list backs ∧ SameItems backs items := by
  cases value with
  | list backs => exact ⟨backs, rfl, h⟩
  | _ => exact absurd h (by simp [Same])

theorem eq_missing_or_orNull (v : Value) : v = .missing ∨ v.orNull = v := by
  cases v with
  | missing => exact Or.inl rfl
  | _ => exact Or.inr rfl

theorem eq_of_same_number {x : Double} {value : Value} (h : (Value.number x).Same value) :
    value = .number x := by
  cases value with
  | _ => exact Eq.symm h

theorem asKey_eq_or_number (v : Value) : v.asKey = v ∨ ∃ x, v.asKey = .number x := by
  cases v with
  | number x =>
    by_cases hzero : x.isZero = true
    · exact Or.inr ⟨Double.zero, by rw [asKey, if_pos hzero]⟩
    · exact Or.inr ⟨x, by rw [asKey, if_neg hzero]⟩
  | _ => exact Or.inl rfl

/-- Where a list comes back from two conversions, each of its items does. -/
theorem same_of_mapM_mapM {f g : Value → Except Failure Value} {items cells backs : List Value}
    (hcells : items.mapM f = .ok cells) (hbacks : cells.mapM g = .ok backs)
    (hsame : SameItems backs items) :
    ∀ item ∈ items, ∃ cell back, f item = .ok cell ∧ g cell = .ok back ∧ back.Same item := by
  induction items generalizing cells backs with
  | nil => exact fun item hitem => absurd hitem List.not_mem_nil
  | cons first rest ih =>
    obtain ⟨cell, others, hcell, hothers, rfl⟩ := Outcome.mapM_cons_eq_ok.mp hcells
    obtain ⟨back, reads, hback, hreads, rfl⟩ := Outcome.mapM_cons_eq_ok.mp hbacks
    intro item hitem
    rcases List.mem_cons.mp hitem with rfl | hitem
    · exact ⟨cell, back, hcell, hback, hsame.1⟩
    · exact ih hothers hreads hsame.2 item hitem

/-- Where entries come back from their items, the key and the value of each do. -/
theorem same_of_readEntries {split : Value → Except Failure (Value × Value)}
    {readKey readValue : Value → Except Failure Value} {duplicate : Value → Failure}
    {write : Value × Value → Except Failure Value} {es entries result : List (Value × Value)}
    {items : List Value} (hitems : es.mapM write = .ok items)
    (hread : readEntries split readKey readValue duplicate entries items = .ok result) :
    ∃ read, result = entries ++ read ∧ (SameEntries read es → ∀ e ∈ es,
      ∃ item rawKey rawValue key value, write e = .ok item ∧
        split item = .ok (rawKey, rawValue) ∧ readKey rawKey = .ok key ∧
        readValue rawValue = .ok value ∧ key.asKey.Same e.1 ∧ value.Same e.2) := by
  induction es generalizing entries items with
  | nil =>
    obtain rfl : [] = items := Except.ok.inj hitems
    obtain rfl := Except.ok.inj hread
    exact ⟨[], by simp, fun _ e he => absurd he List.not_mem_nil⟩
  | cons first rest ih =>
    obtain ⟨item, others, hitem, hothers, rfl⟩ := Outcome.mapM_cons_eq_ok.mp hitems
    obtain ⟨rawKey, rawValue, key, value, hsplit, hkey, _, hvalue, hnext⟩ :=
      readEntries_cons_eq_ok hread
    obtain ⟨read, rfl, hall⟩ := ih hothers hnext
    refine ⟨(key.asKey, value) :: read, by simp, fun hsame e he => ?_⟩
    rcases List.mem_cons.mp he with rfl | he
    · exact ⟨item, rawKey, rawValue, key, value, hitem, hsplit, hkey, hvalue, hsame.1⟩
    · exact hall hsame.2 e he

end Value

namespace FieldType

/-- Where a row comes back from a record, each of its values comes back from what the record
answers to the name of its field. -/
theorem same_of_parseFields {fields : List Field} {row back : Row} {cells : List (String × Value)}
    {tableRow : Value} (hcells : encodeFields fields row = .ok cells)
    (hback : parseFields fields tableRow = .ok back) (hsame : Value.SameItems back row) :
    ∀ p ∈ fields.zip row, ∃ cell raw read, encode p.1.type p.1.nullable p.2.orNull = .ok cell ∧
      (p.1.name, cell) ∈ cells ∧ tableRow.fieldOf p.1.name = .ok raw ∧
      parse p.1.type p.1.nullable raw = .ok read ∧ read.Same p.2 := by
  induction fields generalizing row back cells with
  | nil => exact fun p hp => absurd hp (by simp)
  | cons f fields ih =>
    cases row with
    | nil => exact fun p hp => absurd hp (by simp)
    | cons value row =>
      obtain ⟨cell, others, hcell, hothers, rfl⟩ := encodeFields_cons_eq_ok hcells
      obtain ⟨raw, first, backs, hraw, hfirst, hbacks, rfl⟩ := parseFields_cons_eq_ok hback
      rw [List.zip_cons_cons]
      intro p hp
      rcases List.mem_cons.mp hp with rfl | hp
      · exact ⟨cell, raw, first, hcell, List.mem_cons_self, hraw, hfirst, hsame.1⟩
      · obtain ⟨cell, raw, read, hcell, hmem, hread⟩ := ih hothers hbacks hsame.2 p hp
        exact ⟨cell, raw, read, hcell, List.mem_cons_of_mem _ hmem, hread⟩

theorem length_of_encode_row {fields : List Field} {nullable : Bool} {items : Row} {cell : Value}
    (h : encode (.row fields) nullable (.list items) = .ok cell) :
    items.length = fields.length := by
  rw [encode, if_neg (Cell.isNull_of_present rfl)] at h
  split at h
  · assumption
  · exact absurd h (by simp)

/-- A row is read from an object only. -/
theorem parse_row_eq_list {fields : List Field} {nullable : Bool} {raw : Value} {backs : Row}
    (h : parse (.row fields) nullable raw = .ok (.list backs)) :
    raw.isObject = true ∧ parseFields fields raw = .ok backs := by
  rw [parse] at h
  split at h
  · exact absurd (parseMissing_eq_ok h).2 (by simp)
  · split at h
    · exact absurd h (by simp [Cell.parseText, Cell.parseScalar])
    · split at h
      · rename_i hobject
        obtain ⟨row, hrow, h⟩ := Outcome.bind_eq_ok.mp h
        obtain rfl := Value.list.inj (Except.ok.inj h)
        exact ⟨hobject, hrow⟩
      · exact absurd h (by simp)

/-! ## Items that are mistaken -/

/-- A record of other names has no answer to the name of the wrapping. -/
theorem fieldOf_wrapName {fields : List Field} {cells : List (String × Value)}
    (happart : Schema.NamesApart fields) (hnames : cells.map Prod.fst = fields.map Named.name)
    (h : Cell.wrapName ∉ fields.map Named.name) :
    (Value.ofAssignments cells).fieldOf Cell.wrapName = .ok .missing := by
  have hother : Cell.wrapName ∉ Members.names (Members.ofPairs cells) := fun hmem =>
    h (hnames ▸ (Members.names_ofPairs_perm (hnames ▸ happart.1)).mem_iff.mp hmem)
  have hheld : (Value.record (Members.ofPairs cells)).held? Cell.wrapName = none := by
    simp only [Value.held?, Value.ownMembers, Members.get?_eq_none hother]
    rfl
  rw [Value.ofAssignments_cells happart hnames]
  simp only [Value.fieldOf, Value.answer?, hheld]
  rfl

/-- A row that is as long as its fields has a value for each name of theirs. -/
theorem exists_value_of_name {fields : List Field} {row : Row} {name : String}
    (hlength : row.length = fields.length) (h : name ∈ fields.map Named.name) :
    ∃ p ∈ fields.zip row, p.1.name = name := by
  have hall : (fields.zip row).map Prod.fst = fields :=
    List.map_fst_zip (Nat.le_of_eq hlength.symm)
  obtain ⟨f, hf, hname⟩ := List.mem_map.mp h
  rw [← hall] at hf
  obtain ⟨p, hp, rfl⟩ := List.mem_map.mp hf
  exact ⟨p, hp, hname⟩

theorem orNull_of_isObject {type : FieldType} {nullable : Bool} {value cell : Value}
    (h : encode type nullable value.orNull = .ok cell) (hobject : cell.isObject = true) :
    value.orNull = value := by
  rcases value.eq_missing_or_orNull with rfl | hvalue
  · obtain ⟨_, rfl⟩ := Cell.ofNull_eq_ok (encode_null type nullable ▸ h)
    exact absurd hobject Bool.false_ne_true
  · exact hvalue

/-- What a row would be read from, if its record were the wrapping of a cell, is not the row:
each step inside leaves one record less than there are rows to read. -/
theorem not_same_of_unwrapped {type : FieldType} {nullable nullable' : Bool}
    {value cell raw back : Value} (htext : type.IsTextual)
    (hcell : encode type nullable value = .ok cell) (hobject : cell.isObject = true)
    (hraw : cell.fieldOf Cell.wrapName = .ok raw) (hback : parse type nullable' raw = .ok back) :
    ¬ back.Same value := by
  induction type generalizing nullable nullable' value cell raw back with
  | row fields ih =>
    rw [IsTextual] at htext
    obtain ⟨happart, htext⟩ := htext
    obtain ⟨_, _, rfl⟩ | ⟨items, cells, rfl, hcells, rfl⟩ := encode_row_eq_ok hcell
    · exact absurd hobject Bool.false_ne_true
    have hnames := names_of_encodeFields hcells
    intro hsame
    obtain ⟨backs, rfl, hsame⟩ := Value.same_list hsame
    obtain ⟨hinner, hbacks⟩ := parse_row_eq_list hback
    by_cases hwrap : Cell.wrapName ∈ fields.map Named.name
    · -- what is read is the cell of a field, and an object: the field is a row again, one
      -- level further in
      obtain ⟨p, hp, hname⟩ := exists_value_of_name (length_of_encode_row hcell) hwrap
      obtain ⟨cell, next, read, hfcell, hmem, hnext, hread, hfsame⟩ :=
        same_of_parseFields hcells hbacks hsame p hp
      have hfound := Value.fieldOf_cells happart hnames hmem
      rw [hname] at hfound hnext
      obtain rfl := Except.ok.inj (hraw.symm.trans hfound)
      have hf := (List.of_mem_zip hp).1
      rw [orNull_of_isObject hfcell hinner] at hfcell
      exact ih p.1 hf (isTextual_of_mem htext hf) hfcell hinner hnext hread hfsame
    · have hmissing := fieldOf_wrapName happart hnames hwrap
      obtain rfl := Except.ok.inj (hraw.symm.trans hmissing)
      exact absurd hinner Bool.false_ne_true
  | _ =>
    have hflat := isObject_of_encode (by simp) hcell
    exact absurd (hflat.symm.trans hobject) Bool.false_ne_true

theorem isObject_of_encode_row {type : FieldType} {fields : List Field} {nullable : Bool}
    {items : Row} {cell : Value} (htext : type.IsTextual) (hrow : type = .row fields)
    (h : encode type nullable (.list items) = .ok cell) : cell.isObject = true := by
  have happart := namesApart_of_isTextual htext fields hrow
  subst hrow
  obtain ⟨hnull, _⟩ | ⟨_, cells, _, hcells, rfl⟩ := encode_row_eq_ok h
  · exact absurd hnull (by simp)
  · rw [Value.ofAssignments_cells happart (names_of_encodeFields hcells)]
    rfl

/-- An object is unwrapped from the record that looks like its wrapping. -/
theorem unwrapElement_wrapped {fields : List Field} {inner : Value}
    (h : inner.isObject = true) :
    Cell.unwrapElement (.row fields) (Value.ofAssignments [(Cell.wrapName, inner)]) = inner := by
  have hname : Members.reservedName ∉ [(Cell.wrapName, inner)].map Prod.fst := by
    simp [Members.reservedName, Cell.wrapName]
  have hrecord : Members.ofPairs [(Cell.wrapName, inner)] = [(Cell.wrapName, inner)] := by
    have hplain : Members.arrayIndex? Cell.wrapName = none := by decide
    simp [Members.ofPairs, Members.insert, Members.contains, hplain]
  have hunwrap : Cell.unwrap (.record [(Cell.wrapName, inner)]) = inner := rfl
  rw [Value.ofAssignments_eq hname, hrecord, Cell.unwrapElement, hunwrap, if_pos h]

/-- An item that is mistaken does not come back. -/
theorem not_same_of_isMistaken {element : FieldType} {nullable : Bool} {item cell back : Value}
    (htext : element.IsTextual) (hmistaken : IsMistaken element item)
    (hcell : encode element nullable item = .ok cell)
    (hback : parse element nullable (Cell.unwrapElement element cell) = .ok back) :
    ¬ back.Same item := by
  obtain ⟨⟨f, fields, rfl, hname, htype⟩, inner, rest, rfl⟩ := hmistaken
  obtain rfl := List.length_eq_zero_iff.mp (Nat.succ.inj (length_of_encode_row hcell))
  rw [IsTextual, AllTextual] at htext
  obtain ⟨hnull, _⟩ | ⟨items, cells, hitems, hcells, rfl⟩ := encode_row_eq_ok hcell
  · exact absurd hnull (by simp)
  obtain rfl := Value.list.inj hitems
  obtain ⟨first, others, hfirst, hothers, rfl⟩ := encodeFields_cons_eq_ok hcells
  obtain rfl : [] = others := Except.ok.inj hothers
  have hfirst : encode f.type f.nullable (.list inner) = .ok first := hfirst
  have hobject : first.isObject = true := isObject_of_encode_row htext.2.1 htype hfirst
  rw [hname, unwrapElement_wrapped hobject] at hback
  intro hsame
  obtain ⟨backs, rfl, hsame⟩ := Value.same_list hsame
  obtain ⟨_, hbacks⟩ := parse_row_eq_list hback
  obtain ⟨raw, read, _, hraw, hread, _, rfl⟩ := parseFields_cons_eq_ok hbacks
  rw [hname] at hraw
  exact not_same_of_unwrapped htext.2.1 hfirst hobject hraw hread hsame.1

/-! ## Values that come back -/

/-- Whether the values of a type that come back from their cells have kept their items. -/
def ReturnsKept (type : FieldType) : Prop :=
  ∀ {nullable value cell back}, encode type nullable value = .ok cell →
    parse type nullable cell = .ok back → back.Same value → type.KeepsItems value

theorem returnsKept_array {element : FieldType} {elementNullable : Bool}
    (htext : element.IsTextual) (helement : element.ReturnsKept) :
    (FieldType.array element elementNullable).ReturnsKept := by
  intro nullable value cell back hcell hback hsame
  obtain ⟨rfl, _⟩ | ⟨items, cells, rfl, hcells, rfl⟩ := encode_array_eq_ok hcell
  · exact keepsItems_of_flat (by simp) (by simp)
  obtain ⟨backs, hbacks, rfl⟩ : ∃ backs, cells.mapM (fun cell =>
      parse element elementNullable (Cell.unwrapElement element cell)) = .ok backs ∧
      back = .list backs := by
    obtain ⟨backs, hbacks, h⟩ := Outcome.bind_eq_ok.mp hback
    exact ⟨backs, hbacks, (Except.ok.inj h).symm⟩
  rintro _ ⟨⟩ item hitem
  obtain ⟨cell, back, hcell, hback, hsame⟩ :=
    Value.same_of_mapM_mapM hcells hbacks hsame item hitem
  have hkept : ¬ IsMistaken element item := fun hmistaken =>
    not_same_of_isMistaken htext hmistaken hcell hback hsame
  rw [unwrapElement_of_encode hkept (namesApart_of_isTextual htext) hcell] at hback
  exact ⟨hkept, helement hcell hback hsame⟩

/-- A key that is stored as the key that was written has kept its items: only a number is stored
as another key than it is read, and numbers have no items. -/
theorem returnsKept_key {type : FieldType} (htype : type.ReturnsKept) {value cell key : Value}
    (hcell : encode type false value = .ok cell) (hkey : parse type false cell = .ok key)
    (hsame : key.asKey.Same value) : type.KeepsItems value := by
  rcases key.asKey_eq_or_number with hform | ⟨x, hform⟩
  · rw [hform] at hsame
    exact htype hcell hkey hsame
  · rw [hform] at hsame
    rw [Value.eq_of_same_number hsame]
    exact keepsItems_of_flat (by simp) (by simp)

theorem returnsKept_map {keyType valueType : FieldType} {valueNullable : Bool}
    (hkeys : keyType.ReturnsKept) (hvalues : valueType.ReturnsKept) :
    (FieldType.map keyType valueType valueNullable).ReturnsKept := by
  intro nullable value cell back hcell hback hsame
  obtain ⟨rfl, _⟩ | ⟨entries, cells, rfl, hcells, rfl⟩ := encode_map_eq_ok hcell
  · exact keepsItems_of_flat (by simp) (by simp)
  obtain ⟨backs, hbacks, h⟩ := Outcome.bind_eq_ok.mp hback
  obtain rfl := Except.ok.inj h
  obtain ⟨read, hread, hall⟩ := Value.same_of_readEntries hcells hbacks
  obtain rfl : backs = read := hread
  rintro _ ⟨⟩ e he
  obtain ⟨item, rawKey, rawValue, key, value, hitem, hsplit, hkey, hvalue, hkeySame, hvalueSame⟩ :=
    hall hsame e he
  obtain ⟨keyCell, hkeyCell, hitem⟩ := Outcome.bind_eq_ok.mp hitem
  obtain ⟨valueCell, hvalueCell, hitem⟩ := Outcome.bind_eq_ok.mp hitem
  obtain rfl := Except.ok.inj hitem
  obtain ⟨rfl, rfl⟩ := Prod.mk.inj (Except.ok.inj hsplit)
  exact ⟨returnsKept_key hkeys hkeyCell hkey hkeySame, hvalues hvalueCell hvalue hvalueSame⟩

theorem returnsKept_row {fields : List Field} (happart : Schema.NamesApart fields)
    (hfields : ∀ f ∈ fields, f.type.ReturnsKept) : (FieldType.row fields).ReturnsKept := by
  intro nullable value cell back hcell hback hsame
  obtain ⟨rfl, _⟩ | ⟨items, cells, rfl, hcells, rfl⟩ := encode_row_eq_ok hcell
  · exact keepsItems_of_flat (by simp) (by simp)
  have hnames := names_of_encodeFields hcells
  obtain ⟨backs, rfl, hsame⟩ := Value.same_list hsame
  obtain ⟨_, hbacks⟩ := parse_row_eq_list hback
  rintro _ ⟨⟩
  refine rowKeepsItems_iff.mpr fun p hp => ?_
  obtain ⟨cell, raw, read, hfcell, hmem, hraw, hread, hfsame⟩ :=
    same_of_parseFields hcells hbacks hsame p hp
  obtain rfl := Except.ok.inj ((Value.fieldOf_cells happart hnames hmem).symm.trans hraw)
  rcases p.2.eq_missing_or_orNull with hvalue | hvalue
  · rw [hvalue]
    exact keepsItems_of_flat (by simp) (by simp)
  · rw [hvalue] at hfcell
    exact hfields p.1 (List.of_mem_zip hp).1 hfcell hread hfsame

/-- A value that comes back from its cell has kept its items. -/
theorem returnsKept {type : FieldType} (htext : type.IsTextual) : type.ReturnsKept := by
  induction type with
  | array element elementNullable ih =>
    rw [IsTextual] at htext
    exact returnsKept_array htext (ih htext)
  | map keyType valueType valueNullable ihKey ihValue =>
    rw [IsTextual] at htext
    exact returnsKept_map (ihKey htext.1) (ihValue htext.2)
  | row fields ih =>
    rw [IsTextual] at htext
    exact returnsKept_row htext.1 fun f hf => ih f hf (isTextual_of_mem htext.2 hf)
  | primitive | logical | unknown => exact fun _ _ _ => trivial

/-! ## Lists of rows -/

/-- A list of rows of exact scalars is written to a cell, and what is read from the cell is the
list, if and only if no item of an array in it is mistaken for a wrapped cell. -/
theorem parse_encode_rows {fields : List Field} {elementNullable nullable : Bool}
    {rows : List Value} (htext : (FieldType.row fields).IsTextual)
    (hrows : ∀ row ∈ rows, (FieldType.row fields).Admits IsExact elementNullable row) :
    ∃ cell,
      encode (.array (.row fields) elementNullable) nullable (.list rows) = .ok cell ∧
      ((∃ back, parse (.array (.row fields) elementNullable) nullable cell = .ok back ∧
          back.Same (.list rows)) ↔
        KeepsItems (.array (.row fields) elementNullable) (.list rows)) := by
  have htext : (FieldType.array (.row fields) elementNullable).IsTextual := by
    rw [IsTextual]
    exact htext
  have hvalue : (FieldType.array (.row fields) elementNullable).Inhabits IsExact (.list rows) :=
    ⟨rows, rfl, hrows⟩
  obtain ⟨cell, hcell⟩ := exists_cell htext hvalue
  refine ⟨cell, hcell, ?_, ?_⟩
  · rintro ⟨back, hback, hsame⟩
    exact returnsKept htext hcell hback hsame
  · intro hkept
    have hreturns : Returns _ nullable (.list rows) := returns_of_keepsItems htext hvalue hkept
    obtain ⟨written, hwritten, hback⟩ := hreturns
    obtain rfl := Except.ok.inj (hcell.symm.trans hwritten)
    exact ⟨_, hback, same_plain hvalue⟩

/-- A row whose only field has the name of the wrapping comes back, if it holds a text. -/
theorem parse_encode_rows_text :
    ∃ cell back,
      encode (.array (.row [⟨"v", .primitive .string, false, none⟩]) false) false
          (.list [.list [.string "a"], .list [.string "b"]]) = .ok cell ∧
      parse (.array (.row [⟨"v", .primitive .string, false, none⟩]) false) false cell = .ok back ∧
      back.Same (.list [.list [.string "a"], .list [.string "b"]]) := by
  have htext : (FieldType.row [⟨"v", .primitive .string, false, none⟩]).IsTextual := by
    simp [IsTextual, AllTextual, Schema.NamesApart, Members.reservedName]
  have hrow (s : String) : (FieldType.row [⟨"v", .primitive .string, false, none⟩]).Admits
      IsExact false (.list [.string s]) := Or.inr ⟨_, rfl, Or.inr ⟨s, rfl⟩, trivial⟩
  have hrows : ∀ row ∈ [Value.list [.string "a"], .list [.string "b"]],
      (FieldType.row [⟨"v", .primitive .string, false, none⟩]).Admits IsExact false row := by
    intro row hmem
    simp only [List.mem_cons, List.not_mem_nil, or_false] at hmem
    rcases hmem with rfl | rfl
    · exact hrow "a"
    · exact hrow "b"
  obtain ⟨cell, hcell, hiff⟩ := parse_encode_rows htext hrows
  obtain ⟨back, hback, hsame⟩ := hiff.mpr (by simp [KeepsItems, RowKeepsItems, IsMistaken])
  exact ⟨cell, back, hcell, hback, hsame⟩

/-- If it holds a row instead, the row around it takes the row inside for itself and finds no
value in it: the text is lost without a failure. -/
theorem parse_encode_rows_lost :
    (FieldType.row [⟨"v", .row [⟨"n", .primitive .string, false, none⟩], true, none⟩]).IsTextual ∧
    (FieldType.row [⟨"v", .row [⟨"n", .primitive .string, false, none⟩], true, none⟩]).Admits
      IsExact false (.list [.list [.string "a"]]) ∧
    ∃ cell,
      encode (.array (.row [⟨"v", .row [⟨"n", .primitive .string, false, none⟩], true, none⟩])
          false) false (.list [.list [.list [.string "a"]]]) = .ok cell ∧
      parse (.array (.row [⟨"v", .row [⟨"n", .primitive .string, false, none⟩], true, none⟩])
          false) false cell = .ok (.list [.list [.null]]) ∧
      ¬ (Value.list [.list [.null]]).Same (.list [.list [.list [.string "a"]]]) := by
  refine ⟨?_, Or.inr ⟨_, rfl, Or.inr ⟨_, rfl, Or.inr ⟨"a", rfl⟩, trivial⟩, trivial⟩,
    .list [.record [("v", .record [("n", .string "a")])]], rfl, rfl, ?_⟩
  · simp [IsTextual, AllTextual, Schema.NamesApart, Members.reservedName]
  · simp [Value.Same, Value.SameItems]

end FieldType

end WarehouseRows
