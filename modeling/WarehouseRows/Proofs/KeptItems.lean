import WarehouseRows.Proofs.ScalarText
import WarehouseRows.Proofs.TableRows

/-!
# Values read back from their cells

A value that is written to a cell and read back is the same value, if its scalars are exact
and nothing on the way is mistaken for something else. The items of an array may be wrapped,
and an item that is a row is unwrapped if there is a record inside. A row with one field
looks just like that if the field has the name of the wrapping and holds a row; no other row
does, whatever its fields are called.

## Main definitions

* `FieldType.IsTextual`: the types whose scalars are read back from their texts.
* `FieldType.IsMistaken`: the items that look like wrapped cells.
* `FieldType.KeepsItems`: the values in which no item of an array is mistaken.
-/

namespace WarehouseRows

namespace FieldType

/-- Whether a type is a row with a single field, named like the wrapping of cells, that is
itself a row. -/
def WrapsRow (type : FieldType) : Prop :=
  ∃ f fields, type = .row [f] ∧ f.name = Cell.wrapName ∧ f.type = .row fields

/-- Whether an item of an array is a row like that, and the row inside is not missing: the record
that is its cell then looks like the wrapping of the record inside. -/
def IsMistaken (element : FieldType) (item : Value) : Prop :=
  WrapsRow element ∧ ∃ inner rest, item = .list (.list inner :: rest)

mutual

/-- Whether the scalars inside the values of a type are read back from their texts, and the
names in every row are apart. -/
def IsTextual (type : FieldType) : Prop :=
  match type with
  | .primitive kind => kind ≠ .float32 ∧ kind ≠ .float64
  | .array element _ => IsTextual element
  | .map key value _ => IsTextual key ∧ IsTextual value
  | .row fields => Schema.NamesApart fields ∧ AllTextual fields
  | .logical _ _ representation labels =>
    representation = .date ∨ representation = .time ∨ representation = .datetime ∨
      (representation = .enumeration ∧ (labels.getD []).Nodup)
  | .unknown _ => False

/-- Whether the type of each field is such a type. -/
def AllTextual (fields : List Field) : Prop :=
  match fields with
  | [] => True
  | f :: rest => IsTextual f.type ∧ AllTextual rest

end

mutual

/-- Whether no item of an array inside a value is mistaken for a wrapped cell. -/
def KeepsItems (type : FieldType) (value : Value) : Prop :=
  match type with
  | .array element _ =>
    ∀ items, value = .list items →
      ∀ item ∈ items, ¬ IsMistaken element item ∧ KeepsItems element item
  | .map keyType valueType _ =>
    ∀ entries, value = .map entries →
      ∀ e ∈ entries, KeepsItems keyType e.1 ∧ KeepsItems valueType e.2
  | .row fields => ∀ items, value = .list items → RowKeepsItems fields items
  | .primitive _ | .logical .. | .unknown _ => True

/-- Whether no item of an array inside a row is mistaken for a wrapped cell. -/
def RowKeepsItems (fields : List Field) (row : Row) : Prop :=
  match fields, row with
  | f :: fields, value :: row => KeepsItems f.type value ∧ RowKeepsItems fields row
  | _, _ => True

end

theorem isTextual_of_mem {fields : List Field} (h : AllTextual fields) {f : Field}
    (hf : f ∈ fields) : f.type.IsTextual := by
  induction fields with
  | nil => exact absurd hf List.not_mem_nil
  | cons first rest ih =>
    rw [AllTextual] at h
    rcases List.mem_cons.mp hf with rfl | hf
    · exact h.1
    · exact ih h.2 hf

theorem namesApart_of_isTextual {type : FieldType} (h : type.IsTextual) (fields : List Field)
    (heq : type = .row fields) : Schema.NamesApart fields := by
  subst heq
  rw [IsTextual] at h
  exact h.1

/-- A row keeps its items if each of its values does. -/
theorem rowKeepsItems_iff {fields : List Field} {row : Row} :
    RowKeepsItems fields row ↔ ∀ p ∈ fields.zip row, p.1.type.KeepsItems p.2 := by
  induction fields generalizing row with
  | nil => simp [RowKeepsItems]
  | cons f fields ih =>
    cases row with
    | nil => simp [RowKeepsItems]
    | cons value row => rw [RowKeepsItems, ih, List.zip_cons_cons, List.forall_mem_cons]

/-- Only lists and maps have items that are kept or not. -/
theorem keepsItems_of_flat {type : FieldType} {value : Value}
    (hlist : ∀ items, value ≠ .list items) (hmap : ∀ entries, value ≠ .map entries) :
    type.KeepsItems value := by
  cases type with
  | array element elementNullable => exact fun items h => absurd h (hlist items)
  | map keyType valueType valueNullable => exact fun entries h => absurd h (hmap entries)
  | row fields => exact fun items h => absurd h (hlist items)
  | primitive | logical | unknown => exact trivial

/-! ## Unwrapped items -/

theorem unwrap_of_isObject_false {v : Value} (h : v.isObject = false) : Cell.unwrap v = v := by
  rw [Cell.unwrap, h, if_neg Bool.false_ne_true]

/-- A record is taken for a wrapped cell only if its single member has that name. -/
theorem unwrap_record (members : Members Value) :
    Cell.unwrap (.record members) = .record members ∨
      ∃ inner, members = [(Cell.wrapName, inner)] ∧ Cell.unwrap (.record members) = inner := by
  match members with
  | [] => exact Or.inl rfl
  | [(name, inner)] =>
    by_cases hname : name = Cell.wrapName
    · subst hname
      exact Or.inr ⟨inner, rfl, rfl⟩
    · refine Or.inl ?_
      simp only [Cell.unwrap, Value.ownMembers, hname, if_false]
      rfl
  | _ :: _ :: _ => exact Or.inl rfl

/-- The cell of a row is not taken for a wrapped one, unless what it wraps is a row. -/
theorem unwrapElement_record {fields : List Field} {row : Row} {cells : List (String × Value)}
    (hkept : ¬ IsMistaken (.row fields) (.list row)) (happart : Schema.NamesApart fields)
    (h : encodeFields fields row = .ok cells) :
    Cell.unwrapElement (.row fields) (.record (Members.ofPairs cells)) =
      .record (Members.ofPairs cells) := by
  have hnames := names_of_encodeFields h
  -- a wrapped cell can only be a row of one field; what is in it is then the cell of that
  -- field, which is no object, so that it is left alone after all
  rcases unwrap_record (Members.ofPairs cells) with hsame | ⟨inner, hmembers, hinner⟩
  · simp only [Cell.unwrapElement, hsame, ite_self]
  · have hperm : [Cell.wrapName].Perm (fields.map Named.name) := by
      have hall := Members.names_ofPairs_perm (hnames ▸ happart.1)
      rw [hmembers, hnames] at hall
      exact hall
    obtain ⟨f, rfl, hname⟩ := List.map_eq_singleton_iff.mp (List.perm_singleton.mp hperm.symm)
    obtain ⟨cell, others, hcell, hothers, rfl⟩ := encodeFields_cons_eq_ok h
    obtain rfl : [] = others := Except.ok.inj hothers
    have hvalue : inner = cell := by
      have hfound : Members.get? (Members.ofPairs [(f.name, cell)]) f.name = some cell :=
        Members.get?_insertAll (by simp) List.mem_cons_self []
      rw [hmembers, hname] at hfound
      exact Option.some.inj hfound
    have hflat : cell.isObject = false := by
      by_cases hrow : ∃ inner, f.type = .row inner
      · obtain ⟨inner, hf⟩ := hrow
        rw [hf] at hcell
        obtain ⟨_, _, rfl⟩ | ⟨items, _, hitems, _, _⟩ := encode_row_eq_ok hcell
        · rfl
        · refine absurd ⟨⟨f, inner, rfl, hname, hf⟩, items, row.tail, ?_⟩ hkept
          cases row with
          | nil => exact absurd hitems (by simp [Value.orNull])
          | cons value row =>
            cases value with
            | list => rw [← hitems]; rfl
            | _ => exact absurd hitems (by simp [Value.orNull])
      · exact isObject_of_encode (fun inner hf => hrow ⟨inner, hf⟩) hcell
    simp only [Cell.unwrapElement, hinner, hvalue, hflat]
    rfl

/-- The cell of an item is not taken for a wrapped one, unless the item is one that is mistaken. -/
theorem unwrapElement_of_encode {element : FieldType} {nullable : Bool} {value cell : Value}
    (hkept : ¬ IsMistaken element value)
    (happart : ∀ fields, element = .row fields → Schema.NamesApart fields)
    (h : encode element nullable value = .ok cell) : Cell.unwrapElement element cell = cell := by
  by_cases hrow : ∃ fields, element = .row fields
  · obtain ⟨fields, rfl⟩ := hrow
    obtain ⟨_, _, rfl⟩ | ⟨items, cells, rfl, hcells, rfl⟩ := encode_row_eq_ok h
    · rfl
    · have hnames := names_of_encodeFields hcells
      rw [Value.ofAssignments_cells (happart fields rfl) hnames]
      exact unwrapElement_record hkept (happart fields rfl) hcells
  · have hflat := isObject_of_encode (fun fields hf => hrow ⟨fields, hf⟩) h
    have hunwrap := unwrap_of_isObject_false hflat
    cases element with
    | row fields => exact absurd ⟨fields, rfl⟩ hrow
    | _ => exact hunwrap

/-! ## Values read back -/

/-- Whether a value has a cell that is read as the value. -/
def Returns (type : FieldType) (nullable : Bool) (value : Value) : Prop :=
  ∃ cell, encode type nullable value = .ok cell ∧ parse type nullable cell = .ok value.plain

theorem returns_null (type : FieldType) : Returns type true .null :=
  ⟨.null, encode_null type true, parse_absent type true rfl⟩

/-- A value returns if its cell is a text that stands for it. -/
theorem returns_of_text {type : FieldType} {nullable : Bool} {value : Value} {text : String}
    (hpresent : value.isAbsent = false) (hcell : encode type nullable value = .ok (.string text))
    (htext : Cell.parseScalar type text = .ok (some value.plain)) :
    Returns type nullable value := by
  refine ⟨.string text, hcell, ?_⟩
  have hplain : value.plain.isAbsent = false := by rw [Value.isAbsent_plain, hpresent]
  rw [parse_scalar type nullable rfl rfl, Cell.parseText, htext, Outcome.ok_bind]
  simp only [hplain]
  rfl

theorem returns_orNull {type : FieldType} {nullable : Bool} {value : Value}
    (htype : type.Inhabits IsExact value → Returns type nullable value)
    (h : Value.OrNull nullable (type.Inhabits IsExact) value) : Returns type nullable value := by
  rcases h with ⟨rfl, rfl⟩ | h
  · exact returns_null type
  · exact htype h

/-! ### Presence and keys -/

theorem isAbsent_of_isExact {type : FieldType} {value : Value} (h : type.IsExact value) :
    value.isAbsent = false := by
  cases type with
  | primitive kind => exact PrimitiveKind.isAbsent_of_isExact h
  | logical identifier base representation labels => exact Representation.isAbsent_of_isExact h
  | _ => exact absurd h id

theorem isAbsent_of_inhabits {type : FieldType} {value : Value} (h : type.Inhabits IsExact value) :
    value.isAbsent = false :=
  of_inhabits (P := fun value => value.isAbsent = false) (fun _ => rfl) (fun _ => rfl)
    (fun _ _ => isAbsent_of_isExact) h

/-- A key of exact scalars is stored as it is. -/
theorem asKey_of_inhabits {type : FieldType} {value : Value} (h : type.Inhabits IsExact value) :
    value.asKey = value := by
  refine of_inhabits (P := fun value => value.asKey = value) (fun _ => rfl) (fun _ => rfl)
    (fun type value hscalar => ?_) h
  cases type with
  | primitive kind => exact PrimitiveKind.asKey_of_isExact hscalar
  | logical identifier base representation labels =>
    exact Representation.asKey_of_isExact hscalar
  | _ => exact absurd hscalar id

theorem orNull_of_admits {type : FieldType} {nullable : Bool} {value : Value}
    (h : Value.OrNull nullable (type.Inhabits IsExact) value) : value.orNull = value := by
  rcases h with ⟨_, rfl⟩ | h
  · rfl
  · exact Value.orNull_of_present (isAbsent_of_inhabits h)

/-! ### Rows -/

/-- Whether every value of a row returns at the place of its field. -/
def RowReturns (fields : List Field) (row : Row) : Prop :=
  row.length = fields.length ∧
    ∀ p ∈ fields.zip row, p.2.orNull = p.2 ∧ Returns p.1.type p.1.nullable p.2

/-- A row of exact scalars returns if each of its values does. -/
theorem rowReturns_of_inhabits {fields : List Field} {row : Row}
    (h : RowInhabits IsExact fields row)
    (hvalues : ∀ p ∈ fields.zip row, Value.OrNull p.1.nullable (p.1.type.Inhabits IsExact) p.2 →
      Returns p.1.type p.1.nullable p.2) : RowReturns fields row := by
  obtain ⟨hlength, hall⟩ := rowInhabits_iff.mp h
  exact ⟨hlength, fun p hp => ⟨orNull_of_admits (hall p hp), hvalues p hp (hall p hp)⟩⟩

/-- The cells of values that return are read from any record that holds them. -/
theorem exists_cells_of_returns {fields : List Field} {row : Row} (h : RowReturns fields row) :
    ∃ cells, encodeFields fields row = .ok cells ∧
      ∀ tableRow : Value, (∀ p ∈ cells, tableRow.fieldOf p.1 = .ok p.2) →
        parseFields fields tableRow = .ok (row.map Value.plain) := by
  -- the record that is read is one and the same for all fields: what the induction carries is
  -- that it answers with the cells, not what else is in it
  induction fields generalizing row with
  | nil =>
    obtain rfl := List.length_eq_zero_iff.mp h.1
    exact ⟨[], rfl, fun _ _ => rfl⟩
  | cons f fields ih =>
    obtain ⟨hlength, hall⟩ := h
    cases row with
    | nil => exact absurd hlength (by simp)
    | cons value row =>
      rw [List.zip_cons_cons, List.forall_mem_cons] at hall
      obtain ⟨⟨hpresent, cell, hcell, hback⟩, hrow⟩ := hall
      obtain ⟨cells, hcells, hothers⟩ := ih ⟨by simpa using hlength, hrow⟩
      refine ⟨(f.name, cell) :: cells, ?_, ?_⟩
      · rw [encodeFields, List.headD_cons, hpresent, hcell, List.drop_succ_cons, List.drop_zero,
          hcells]
        rfl
      · intro tableRow hfound
        have hfirst := hfound (f.name, cell) List.mem_cons_self
        have hrest := hothers tableRow fun p hp => hfound p (List.mem_cons_of_mem _ hp)
        have hread : ((tableRow.fieldOf f.name).bind (parse f.type f.nullable)).mapError
            (Failure.inField f.name) = .ok value.plain := by
          rw [hfirst, Outcome.mapError_eq_ok]
          exact hback
        rw [parseFields, hread, hrest]
        rfl

/-! ### One constructor at a time -/

theorem returns_primitive {kind : PrimitiveKind} {value : Value} {nullable : Bool}
    (h : kind.IsExact value) : Returns (.primitive kind) nullable value := by
  obtain ⟨text, hcell, htext⟩ := PrimitiveKind.exists_text h
  have hpresent := PrimitiveKind.isAbsent_of_isExact h
  have hparse : Cell.parseScalar (.primitive kind) text = .ok (some value.plain) := by
    rw [Cell.parseScalar, htext]
    rfl
  refine returns_of_text hpresent ?_ hparse
  rw [encode, if_neg (Cell.isNull_of_present hpresent), hcell]

theorem returns_logical {identifier : String} {base : FieldType} {representation : Representation}
    {labels : Option (List String)} {value : Value} {nullable : Bool}
    (htext : (FieldType.logical identifier base representation labels).IsTextual)
    (h : (FieldType.logical identifier base representation labels).Inhabits IsExact value) :
    Returns (.logical identifier base representation labels) nullable value := by
  rw [IsTextual] at htext
  have hpass : representation ≠ .passThrough := by
    rintro rfl
    simp at htext
  have hlabels : representation = .enumeration → (labels.getD []).Nodup := by
    rintro rfl
    simpa using htext
  rw [Inhabits, if_neg hpass] at h
  obtain ⟨text, hcell, htext⟩ := Representation.exists_text identifier base hlabels h
  have hpresent := Representation.isAbsent_of_isExact h
  refine returns_of_text hpresent ?_ htext
  rw [encode, if_neg (Cell.isNull_of_present hpresent), hcell]

theorem returns_array {element : FieldType} {elementNullable nullable : Bool}
    {items : List Value} (hrows : ∀ fields, element = .row fields → Schema.NamesApart fields)
    (hitems : ∀ item ∈ items, ¬ IsMistaken element item ∧ Returns element elementNullable item) :
    Returns (.array element elementNullable) nullable (.list items) := by
  obtain ⟨cells, hcells, hback⟩ : ∃ cells,
      items.mapM (fun item => encode element elementNullable item) = .ok cells ∧
      cells.mapM (fun cell => parse element elementNullable (Cell.unwrapElement element cell)) =
        .ok (items.map Value.plain) := by
    refine Outcome.exists_mapM_mapM fun item hitem => ?_
    obtain ⟨hkept, cell, hcell, hback⟩ := hitems item hitem
    refine ⟨cell, hcell, ?_⟩
    rw [unwrapElement_of_encode hkept hrows hcell, hback]
  refine ⟨.list cells, ?_, ?_⟩
  · rw [encode, hcells]
    rfl
  · rw [parse_array_list, hback, Value.plain_list]
    rfl

theorem returns_map {keyType valueType : FieldType} {valueNullable nullable : Bool}
    {entries : List (Value × Value)} (happart : Value.KeysApart entries)
    (hentries : ∀ e ∈ entries, keyType.Inhabits IsExact e.1 ∧ Returns keyType false e.1 ∧
      Returns valueType valueNullable e.2) :
    Returns (.map keyType valueType valueNullable) nullable (.map entries) := by
  have hwritten : ∀ e ∈ entries, ∃ item rawKey rawValue,
      (do
        let key ← encode keyType false e.1
        let cell ← encode valueType valueNullable e.2
        pure (Cell.entry key cell)) = .ok item ∧
      Cell.splitEntry (.map keyType valueType valueNullable) item = .ok (rawKey, rawValue) ∧
      parse keyType false rawKey = .ok e.1.plain ∧
      parse valueType valueNullable rawValue = .ok e.2.plain ∧ e.1.plain.asKey = e.1.plain := by
    intro e he
    obtain ⟨hkey, ⟨key, hkeyCell, hkeyBack⟩, cell, hcell, hcellBack⟩ := hentries e he
    refine ⟨Cell.entry key cell, key, cell, ?_, rfl, hkeyBack, hcellBack, ?_⟩
    · rw [hkeyCell, Outcome.ok_bind, hcell]
      rfl
    · rw [Value.asKey_plain, asKey_of_inhabits hkey]
  obtain ⟨cells, hcells, hback⟩ := Value.exists_mapM_readEntries
    (Value.duplicateKey (.map keyType valueType valueNullable))
    (fun e => (e.1.plain, e.2.plain)) hwritten [] (Value.keysApart_plain happart)
  refine ⟨.list cells, ?_, ?_⟩
  · rw [encode, hcells]
    rfl
  · rw [parse_map_list, hback, Value.plain_map]
    rfl

theorem returns_row {fields : List Field} {items : Row} {nullable : Bool}
    (happart : Schema.NamesApart fields) (h : RowReturns fields items) :
    Returns (.row fields) nullable (.list items) := by
  obtain ⟨cells, hcells, hback⟩ := exists_cells_of_returns h
  have hnames := names_of_encodeFields hcells
  refine ⟨Value.ofAssignments cells, ?_, ?_⟩
  · rw [encode, if_neg (Cell.isNull_of_present rfl), if_pos h.1, hcells]
    rfl
  · have hread := hback (Value.ofAssignments cells) fun p hp =>
      Value.fieldOf_cells happart hnames hp
    rw [parse_row nullable happart hcells, hread, Value.plain_list]
    rfl

/-! ### Any type -/

/-- A value is read back from its cell if its items are kept. -/
theorem returns_of_keepsItems {type : FieldType} {value : Value} {nullable : Bool}
    (htext : type.IsTextual) (h : type.Inhabits IsExact value) (hkept : type.KeepsItems value) :
    Returns type nullable value := by
  induction type generalizing value nullable with
  | primitive kind => exact returns_primitive h
  | array element elementNullable ih =>
    obtain ⟨items, rfl, hitems⟩ := h
    rw [IsTextual] at htext
    refine returns_array (namesApart_of_isTextual htext) fun item hitem => ?_
    obtain ⟨hmistaken, hkept⟩ := hkept items rfl item hitem
    exact ⟨hmistaken, returns_orNull (ih htext · hkept) (hitems item hitem)⟩
  | map keyType valueType valueNullable ihKey ihValue =>
    obtain ⟨entries, rfl, happart, hentries⟩ := h
    rw [IsTextual] at htext
    refine returns_map happart fun e he => ?_
    obtain ⟨hkey, hvalue⟩ := hentries e he
    obtain ⟨hkeptKey, hkeptValue⟩ := hkept entries rfl e he
    exact ⟨hkey, ihKey htext.1 hkey hkeptKey, returns_orNull (ihValue htext.2 · hkeptValue) hvalue⟩
  | row fields ih =>
    obtain ⟨items, rfl, hitems⟩ := h
    rw [IsTextual] at htext
    refine returns_row htext.1 (rowReturns_of_inhabits hitems fun p hp => ?_)
    have hf := (List.of_mem_zip hp).1
    have hkept := rowKeepsItems_iff.mp (hkept items rfl) p hp
    exact returns_orNull (ih p.1 hf (isTextual_of_mem htext.2 hf) · hkept)
  | logical identifier base representation labels ih => exact returns_logical htext h
  | unknown kind => exact absurd h id

/-! ### The same value -/

theorem same_orNull {type : FieldType} {nullable : Bool} {value : Value}
    (htype : ∀ value, type.Inhabits IsExact value → value.plain.Same value)
    (h : Value.OrNull nullable (type.Inhabits IsExact) value) : value.plain.Same value := by
  rcases h with ⟨_, rfl⟩ | h
  · exact rfl
  · exact htype value h

theorem sameItems_row {fields : List Field} {row : Row}
    (hfields : ∀ f ∈ fields, ∀ value, f.type.Inhabits IsExact value → value.plain.Same value)
    (h : RowInhabits IsExact fields row) : Value.SameItems (row.map Value.plain) row := by
  induction fields generalizing row with
  | nil =>
    cases row with
    | nil => exact trivial
    | cons value row => exact absurd h id
  | cons f fields ih =>
    cases row with
    | nil => exact trivial
    | cons value row =>
      exact ⟨same_orNull (hfields f List.mem_cons_self) h.1,
        ih (fun f hf => hfields f (List.mem_cons_of_mem _ hf)) h.2⟩

/-- Dropping the signs of zeros inside a value gives the same value. -/
theorem same_plain {type : FieldType} {value : Value} (h : type.Inhabits IsExact value) :
    value.plain.Same value := by
  induction type generalizing value with
  | primitive kind => exact PrimitiveKind.same_plain h
  | array element elementNullable ih =>
    obtain ⟨items, rfl, hitems⟩ := h
    rw [Value.plain_list]
    exact Value.sameItems_map fun item hitem => same_orNull (fun _ => ih) (hitems item hitem)
  | map keyType valueType valueNullable ihKey ihValue =>
    obtain ⟨entries, rfl, _, hentries⟩ := h
    rw [Value.plain_map]
    exact Value.sameEntries_map fun e he =>
      ⟨ihKey (hentries e he).1, same_orNull (fun _ => ihValue) (hentries e he).2⟩
  | row fields ih =>
    obtain ⟨items, rfl, hitems⟩ := h
    rw [Value.plain_list]
    exact sameItems_row (fun f hf _ => ih f hf) hitems
  | logical identifier base representation labels ih =>
    rw [Inhabits] at h
    split at h
    · exact ih h
    · exact Representation.same_plain h
  | unknown kind => exact absurd h id

end FieldType

end WarehouseRows
