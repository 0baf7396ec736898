import WarehouseRows.Table.Definition
import WarehouseRows.Proofs.SchemaDocuments
import WarehouseRows.Proofs.TableConformance

/-!
# Columns that are written as documents are read back

A document of columns is read column by column, and says of each column its name, its keyword in
any case, and a mode that is one of three words. The columns of a schema are written in this form,
whatever the order of mode and nested columns, and so they are read back as they are.

## Main definitions

* `Column.IsListed`: the columns that documents can list.
-/

namespace WarehouseRows

namespace Column

/-! ## Reading -/

theorem columnsOfJson_eq_map (items : List Json) : columnsOfJson items = items.map ofJson := by
  induction items with
  | nil => rw [columnsOfJson, List.map_nil]
  | cons j items ih => rw [columnsOfJson, ih, List.map_cons]

/-- Nested columns are those of the items of the member `fields`, if there is one. -/
theorem nestedOfJson_eq_valid {members : Members Json} {fields : Option (List Column)} :
    nestedOfJson members = .valid fields ↔
      (members.get? "fields" = none ∧ fields = none) ∨
        ∃ items columns, members.get? "fields" = some (.array items) ∧ fields = some columns ∧
          items.map ofJson = columns.map .valid := by
  rw [nestedOfJson]
  split
  · rename_i items h
    rw [Checked.map_eq_valid]
    simp only [Checked.under_eq_valid, Checked.items_eq_valid, columnsOfJson_eq_map, h]
    grind
  · rename_i j hno h
    have hnot (items : List Json) : ¬ j = .array items := fun hj => hno items hj
    simp [Shape.wrongKind, Checked.refuse, Checked.under, h, hnot]
  · rename_i h
    simp [h, eq_comm]

theorem ofJson_eq_valid {j : Json} {c : Column} :
    ofJson j = .valid c ↔ ∃ (members : Members Json) (keyword : String), j = .object members ∧
      (members.get? "name" = some (.string c.name) ∧ c.name ≠ "") ∧
      (members.get? "type" = some (.string keyword) ∧ keyword ≠ "") ∧
      c.keyword = some (Text.toUpper keyword) ∧
      Shape.member members "mode" (Shape.optional (Shape.oneOf Mode.words)) = .valid c.mode ∧
      nestedOfJson members = .valid c.fields ∧
      Shape.member members "description" (Shape.optional Shape.string) = .valid c.description := by
  cases j with
  | object members =>
    rw [ofJson]
    simp only [Checked.seq_eq_valid, Checked.map_eq_valid, Shape.filledMember_eq_valid]
    constructor
    · rintro ⟨_, description, ⟨_, fields, ⟨_, mode, ⟨_, keyword, ⟨name, hname, rfl⟩, hkeyword, rfl⟩,
        hmode, rfl⟩, hfields, rfl⟩, hdescription, rfl⟩
      exact ⟨members, keyword, rfl, hname, hkeyword, rfl, hmode, hfields, hdescription⟩
    · rintro ⟨_, keyword, hmembers, hname, hkeyword, hupper, hmode, hfields, hdescription⟩
      obtain rfl := Json.object.inj hmembers
      refine ⟨_, c.description, ⟨_, c.fields, ⟨_, c.mode, ⟨_, keyword, ⟨c.name, hname, rfl⟩,
        hkeyword, rfl⟩, hmode, rfl⟩, hfields, rfl⟩, hdescription, ?_⟩
      obtain ⟨name, _, mode, fields, description⟩ := c
      rw [← hupper]
  | _ => simp [ofJson, Shape.wrongKind, Checked.refuse]

end Column

/-! ## What documents can list -/

namespace Column

/-- Whether a mode is missing or one of the three words for it. -/
def Mode.IsWord (mode : Option Mode) : Prop :=
  ∀ m, mode = some m → m ∈ words.map Prod.snd

theorem Mode.isWord_none : IsWord none :=
  fun _ hm => absurd hm (by simp)

theorem Mode.isWord_some {m : Mode} (h : m ∈ words.map Prod.snd) : IsWord (some m) :=
  fun _ hm => Option.some.inj hm ▸ h

mutual

/-- Whether every name in a column is there, and every mode a word for one. -/
def IsListed (c : Column) : Prop :=
  match c with
  | ⟨name, _, mode, some columns, _⟩ => name ≠ "" ∧ Mode.IsWord mode ∧ AllListed columns
  | ⟨name, _, mode, none, _⟩ => name ≠ "" ∧ Mode.IsWord mode

/-- Whether all columns are such columns. -/
def AllListed (columns : List Column) : Prop :=
  match columns with
  | [] => True
  | c :: rest => IsListed c ∧ AllListed rest

end

theorem allListed_iff {columns : List Column} :
    AllListed columns ↔ ∀ c ∈ columns, c.IsListed := by
  induction columns with
  | nil => simp [AllListed]
  | cons c columns ih => simp [AllListed, ih]

theorem isWord_of_ofJson {members : Members Json} {mode : Option Mode}
    (h : Shape.member members "mode" (Shape.optional (Shape.oneOf Mode.words)) = .valid mode) :
    Mode.IsWord mode := by
  intro m hm
  rw [Shape.optional_eq_valid, hm] at h
  obtain ⟨j, _, hj⟩ := Option.map_eq_some_iff.mp h
  obtain ⟨s, _, hs⟩ := Shape.oneOf_eq_valid.mp hj
  exact List.mem_map.mpr ⟨_, Keyword.mem_of_lookup hs, rfl⟩

/-- The columns that a document lists are such columns. -/
theorem isListed_of_ofJson {j : Json} {c : Column} (h : ofJson j = .valid c) : c.IsListed := by
  induction c generalizing j with
  | leaf name keyword mode description =>
    obtain ⟨members, _, _, hname, _, _, hmode, _⟩ := ofJson_eq_valid.mp h
    exact ⟨hname.2, isWord_of_ofJson hmode⟩
  | nested name keyword mode columns description ih =>
    obtain ⟨members, _, _, hname, _, _, hmode, hfields, _⟩ := ofJson_eq_valid.mp h
    refine ⟨hname.2, isWord_of_ofJson hmode, allListed_iff.mpr fun c hc => ?_⟩
    rcases nestedOfJson_eq_valid.mp hfields with ⟨_, hnone⟩ | ⟨items, found, _, hfound, hitems⟩
    · exact absurd hnone (by simp)
    · obtain rfl := Option.some.inj hfound
      obtain ⟨j, _, hj⟩ := List.mem_map.mp (hitems ▸ List.mem_map_of_mem hc)
      exact ih c hc hj

end Column

/-- A document of columns is a list of columns, or an object with one. -/
theorem TableSchema.checkJson_eq_valid {j : Json} {columns : TableSchema} :
    checkJson j = .valid columns ↔ ∃ items,
      (j = .array items ∨
        ∃ members, j = .object members ∧ Members.get? members "fields" = some (.array items)) ∧
      items.map Column.ofJson = columns.map .valid := by
  have hcolumns (j : Json) : TableSchema.columns j = .valid columns ↔
      ∃ items, j = .array items ∧ items.map Column.ofJson = columns.map .valid := by
    cases j with
    | array items =>
      simp [TableSchema.columns, Checked.items_eq_valid, Column.columnsOfJson_eq_map]
    | _ => simp [TableSchema.columns, Shape.wrongKind, Checked.refuse]
  cases j with
  | array items =>
    rw [checkJson, Checked.under_eq_valid, hcolumns]
    simp
  | object members =>
    rw [checkJson, Shape.required_eq_valid]
    simp only [hcolumns]
    grind
  | _ => simp [checkJson, Shape.wrongKind, Checked.refuse]

theorem TableSchema.ofJson_eq_ok {j : Json} {columns : TableSchema} :
    TableSchema.ofJson j = .ok columns ↔ checkJson j = .valid columns := by
  rw [TableSchema.ofJson, Outcome.mapError_eq_ok, Checked.toExcept_eq_ok]

/-- The columns of a document are such as documents can list. -/
theorem TableSchema.isListed_of_ofJson {j : Json} {columns : TableSchema}
    (h : TableSchema.ofJson j = .ok columns) : ∀ c ∈ columns, Column.IsListed c := by
  obtain ⟨items, _, hitems⟩ := checkJson_eq_valid.mp (ofJson_eq_ok.mp h)
  intro c hc
  obtain ⟨j, _, hj⟩ := List.mem_map.mp (hitems ▸ List.mem_map_of_mem hc)
  exact Column.isListed_of_ofJson hj

/-! ## Writing -/

namespace Column

section Document

variable {name keyword : String} {description : Option String} {mode : Option Mode}
  {fields : Option (List Json)}

theorem isTextual_document (keyword : Option String) (modeLast : Bool)
    (h : ∀ items, fields = some items → Json.AllTextual items) :
    (document name keyword description mode fields modeLast).IsTextual := by
  have hmode : ∀ m ∈ Json.optional "mode" (mode.map fun m => .string m.name), m.2.IsTextual := by
    refine Json.isTextual_of_mem_optional fun v hv => ?_
    obtain ⟨m, _, rfl⟩ := Option.map_eq_some_iff.mp hv
    exact trivial
  have hfields : ∀ m ∈ Json.optional "fields" (fields.map .array), m.2.IsTextual := by
    refine Json.isTextual_of_mem_optional fun v hv => ?_
    obtain ⟨items, hitems, rfl⟩ := Option.map_eq_some_iff.mp hv
    exact h items hitems
  have hfirst := (((List.Sublist.refl ["name"]).append
    (Json.names_optional_sublist "type" (keyword.map .string))).append
    (Json.names_optional_sublist "description" (description.map .string)))
  have hmodeName := Json.names_optional_sublist "mode" (mode.map fun m => .string m.name)
  have hfieldsName := Json.names_optional_sublist "fields" (fields.map .array)
  rw [document]
  cases modeLast with
  | false =>
    refine Json.isTextual_object ["name", "type", "description", "mode", "fields"] (by decide) ?_ ?_
    · simpa [Members.names] using hfirst.append (hmodeName.append hfieldsName)
    · simp only [List.forall_mem_append, Bool.false_eq_true, if_false]
      exact ⟨⟨⟨by simp [Json.IsTextual], Json.isTextual_of_mem_text⟩, Json.isTextual_of_mem_text⟩,
        hmode, hfields⟩
  | true =>
    refine Json.isTextual_object ["name", "type", "description", "fields", "mode"] (by decide) ?_ ?_
    · simpa [Members.names] using hfirst.append (hfieldsName.append hmodeName)
    · simp only [List.forall_mem_append, if_true]
      exact ⟨⟨⟨by simp [Json.IsTextual], Json.isTextual_of_mem_text⟩, Json.isTextual_of_mem_text⟩,
        hfields, hmode⟩

/-- The written form holds the parts of a column under their names, whatever their order. -/
theorem exists_members_document (modeLast : Bool) :
    ∃ members : Members Json,
      document name (some keyword) description mode fields modeLast = .object members ∧
      members.get? "name" = some (.string name) ∧ members.get? "type" = some (.string keyword) ∧
      members.get? "description" = description.map .string ∧
      members.get? "mode" = mode.map (fun m => .string m.name) ∧
      members.get? "fields" = fields.map .array := by
  refine ⟨_, rfl, ?_⟩
  cases modeLast <;>
    simp [Members.get?_append, Members.get?_cons, Json.get?_optional]

theorem modeOf_eq_valid {members : Members Json}
    (h : members.get? "mode" = mode.map fun m => .string m.name) (hmode : Mode.IsWord mode) :
    Shape.member members "mode" (Shape.optional (Shape.oneOf Mode.words)) = .valid mode := by
  rw [Shape.optional_eq_valid, h]
  cases mode with
  | none => rfl
  | some m =>
    have hwords : ∀ m ∈ Mode.words.map Prod.snd, Mode.words.lookup m.name = some m := by decide
    exact congrArg some (Shape.oneOf_eq_valid.mpr ⟨_, rfl, hwords m (hmode m rfl)⟩)

/-- A column is read from its written form. -/
theorem ofJson_document {columns : Option (List Column)} (modeLast : Bool) (hname : name ≠ "")
    (hkeyword : keyword ≠ "" ∧ Text.toUpper keyword = keyword) (hmode : Mode.IsWord mode)
    (hfields : fields.map (List.map ofJson) = columns.map (List.map .valid)) :
    ofJson (document name (some keyword) description mode fields modeLast) =
      .valid ⟨name, some keyword, mode, columns, description⟩ := by
  obtain ⟨members, hmembers, hnames, htypes, hdescriptions, hmodes, hnested⟩ :=
    exists_members_document modeLast
  rw [hmembers, ofJson_eq_valid]
  refine ⟨members, keyword, rfl, ⟨hnames, hname⟩, ⟨htypes, hkeyword.1⟩, ?_,
    modeOf_eq_valid hmodes hmode, ?_, ?_⟩
  · rw [hkeyword.2]
  · rw [nestedOfJson_eq_valid, hnested]
    cases fields with
    | none => exact Or.inl ⟨rfl, (Option.map_eq_none_iff.mp hfields.symm)⟩
    | some items =>
      obtain ⟨found, rfl, hitems⟩ := Option.map_eq_some_iff.mp hfields.symm
      exact Or.inr ⟨items, found, rfl, rfl, hitems.symm⟩
  · rw [Shape.optional_eq_valid, hdescriptions]
    cases description <;> rfl

end Document

end Column

/-! ## Keywords -/

namespace Text

/-- A character in front of the small letters is its own capital form. -/
theorem upperOf_of_lt {c : Char} (h : c.toNat < 'a'.toNat) : upperOf c = [c] := by
  have hruns : ∀ r ∈ upperRuns, 'a'.toNat ≤ r.first := by decide +kernel
  have hexpansions : ∀ p ∈ upperExpansions, 'a'.toNat ≤ p.1 := by decide +kernel
  have hnone : upperExpansions.lookup c.toNat = none := by
    refine List.lookup_eq_none_iff.mpr fun p hp => ?_
    have := hexpansions p hp
    exact bne_iff_ne.mpr (by omega)
  have hfind : (upperRuns.find? fun r =>
      r.first ≤ c.toNat && c.toNat ≤ r.last && (c.toNat - r.first) % r.step == 0) = none := by
    refine List.find?_eq_none.mpr fun r hr => ?_
    have := hruns r hr
    simp only [Bool.and_eq_true, decide_eq_true_eq]
    omega
  simp only [upperOf, hnone, mapRuns, hfind, Char.ofNat_toNat]

theorem toUpper_eq_self {s : String}
    (h : (s.toList.all fun c => c.toNat < 'a'.toNat) = true) : toUpper s = s := by
  have hchars (cs : List Char) (hcs : (cs.all fun c => c.toNat < 'a'.toNat) = true) :
      cs.flatMap upperOf = cs := by
    induction cs with
    | nil => rfl
    | cons c cs ih =>
      obtain ⟨hfirst, hrest⟩ := Bool.and_eq_true_iff.mp hcs
      rw [List.flatMap_cons, upperOf_of_lt (of_decide_eq_true hfirst), ih hrest]
      rfl
  rw [toUpper, hchars _ h, String.ofList_toList]

end Text

/-- What is listed as a keyword stands in capital letters. -/
theorem Keyword.toUpper_of_mem {k : String}
    (h : k ∈ (Keyword.kinds ++ Keyword.logicals).map Prod.snd) : k ≠ "" ∧ Text.toUpper k = k := by
  have hwords : ∀ k ∈ (Keyword.kinds ++ Keyword.logicals).map Prod.snd,
      k ≠ "" ∧ (k.toList.all fun c => c.toNat < 'a'.toNat) = true := by decide
  exact ⟨(hwords k h).1, Text.toUpper_eq_self (hwords k h).2⟩

/-- The keyword of a type is listed. -/
theorem FieldType.mem_of_keyword {type : FieldType} {k : String} (h : type.keyword = .ok k) :
    k ∈ (Keyword.kinds ++ Keyword.logicals).map Prod.snd := by
  have hkind {kind : String} {type : FieldType} (h : keywordOfKind kind type = .ok k) :
      k ∈ (Keyword.kinds ++ Keyword.logicals).map Prod.snd := by
    rw [keywordOfKind] at h
    split at h
    · rename_i found hfound
      obtain rfl := Except.ok.inj h
      exact List.mem_map.mpr
        ⟨_, List.mem_append_left _ (Keyword.mem_of_lookup hfound), rfl⟩
    · exact absurd h (by simp)
  induction type with
  | primitive kind => exact hkind h
  | array element elementNullable => exact hkind h
  | map key value valueNullable => exact absurd h (by simp [keyword])
  | row fields => exact hkind h
  | logical identifier base representation labels ih =>
    rw [keyword] at h
    split at h
    · rename_i found hfound
      obtain rfl := Except.ok.inj h
      exact List.mem_map.mpr
        ⟨_, List.mem_append_right _ (Keyword.mem_of_lookup hfound), rfl⟩
    · split at h
      · exact ih h
      · exact absurd h (by simp)
  | unknown kind => exact hkind h

/-! ## The columns of a schema -/

namespace FieldType

theorem isWord_mode (nullable : Bool) : Column.Mode.IsWord (Field.mode nullable) := by
  cases nullable with
  | true => exact Column.Mode.isWord_none
  | false => exact Column.Mode.isWord_some (by decide)

theorem isWord_repeated : Column.Mode.IsWord (some .repeated) :=
  Column.Mode.isWord_some (by decide)

theorem mem_struct : "STRUCT" ∈ (Keyword.kinds ++ Keyword.logicals).map Prod.snd := by
  decide

/-- The columns of an entry of a map are those of two fields. -/
theorem toColumns_entry {key value : FieldType} {valueNullable : Bool}
    {keyColumn valueColumn : Column}
    (hkey : toColumn MapEntry.keyName false none key = .ok keyColumn)
    (hvalue : toColumn MapEntry.valueName valueNullable none value = .ok valueColumn) :
    toColumns (structFields (.map key value valueNullable)) = .ok [keyColumn, valueColumn] := by
  have hnone : ConversionError.present? none = none := rfl
  rw [structFields, toColumns, hnone, hkey, Outcome.ok_bind, toColumns, hnone, hvalue]
  rfl

/-- The column of a field is made of the name and the description of the field, of a listed
keyword, of a mode that is a word for one, and of the columns of what is nested in the type. -/
theorem toColumn_eq_ok {name : String} {nullable : Bool} {description : Option String}
    {type : FieldType} {c : Column} (h : toColumn name nullable description type = .ok c) :
    ∃ keyword mode fields, c = ⟨name, some keyword, mode, fields, description⟩ ∧
      keyword ∈ (Keyword.kinds ++ Keyword.logicals).map Prod.snd ∧ Column.Mode.IsWord mode ∧
      ∀ columns, fields = some columns → toColumns type.structFields = .ok columns := by
  rw [toColumn.eq_def] at h
  split at h
  · exact absurd h (by simp)
  · obtain ⟨columns, hcolumns, h⟩ := Outcome.bind_eq_ok.mp h
    exact ⟨_, _, _, (Except.ok.inj h).symm, mem_struct, isWord_repeated,
      fun _ hsome => Option.some.inj hsome ▸ hcolumns⟩
  · obtain ⟨keyColumn, hkey, h⟩ := Outcome.bind_eq_ok.mp h
    obtain ⟨valueColumn, hvalue, h⟩ := Outcome.bind_eq_ok.mp h
    exact ⟨_, _, _, (Except.ok.inj h).symm, mem_struct, isWord_repeated,
      fun _ hsome => Option.some.inj hsome ▸ toColumns_entry hkey hvalue⟩
  · obtain ⟨k, hk, rfl⟩ := plainColumn_eq_ok h
    exact ⟨_, _, _, rfl, mem_of_keyword hk, isWord_repeated, fun _ hnone => absurd hnone (by simp)⟩
  · obtain ⟨columns, hcolumns, h⟩ := Outcome.bind_eq_ok.mp h
    exact ⟨_, _, _, (Except.ok.inj h).symm, mem_struct, isWord_mode nullable,
      fun _ hsome => Option.some.inj hsome ▸ hcolumns⟩
  · obtain ⟨keyColumn, hkey, h⟩ := Outcome.bind_eq_ok.mp h
    obtain ⟨valueColumn, hvalue, h⟩ := Outcome.bind_eq_ok.mp h
    exact ⟨_, _, _, (Except.ok.inj h).symm, mem_struct, isWord_repeated,
      fun _ hsome => Option.some.inj hsome ▸ toColumns_entry hkey hvalue⟩
  · obtain ⟨k, hk, rfl⟩ := plainColumn_eq_ok h
    exact ⟨_, _, _, rfl, mem_of_keyword hk, isWord_mode nullable,
      fun _ hnone => absurd hnone (by simp)⟩

/-! ### Reading them back -/

/-- Whether the column of every field of a type is read from its written form. -/
def ReadsBack (type : FieldType) : Prop :=
  ∀ name nullable description c (mapNullable : Bool), name ≠ "" →
    toColumn name nullable description type = .ok c →
    Column.ofJson (Column.documentOf type mapNullable c) = .valid c

theorem map_ofJson_documentsOf {fields : List Field} {columns : List Column}
    (hfields : ∀ f ∈ fields, f.name ≠ "" ∧ f.type.ReadsBack)
    (h : toColumns fields = .ok columns) :
    (Column.documentsOf fields columns).map Column.ofJson = columns.map .valid := by
  induction fields generalizing columns with
  | nil =>
    obtain rfl := Except.ok.inj h
    rfl
  | cons f fields ih =>
    obtain ⟨c, others, hc, hothers, rfl⟩ := toColumns_cons_eq_ok h
    obtain ⟨hname, hback⟩ := hfields f List.mem_cons_self
    rw [Column.documentsOf, List.map_cons, List.map_cons, hback _ _ _ _ _ hname hc,
      ih (fun f hf => hfields f (List.mem_cons_of_mem _ hf)) hothers]

/-- An array has the columns of its element inside, if it has any. -/
theorem mem_structFields_array {element : FieldType} {elementNullable : Bool} {f : Field}
    (h : f ∈ structFields (.array element elementNullable)) : f ∈ element.structFields := by
  cases element with
  | row | map => exact h
  | primitive | array | logical | unknown => exact absurd h List.not_mem_nil

/-- What the columns of a type are made of has names and definable types, if the type is such. -/
theorem isDefinable_structFields {type : FieldType} (h : type.IsDefinable) :
    ∀ f ∈ type.structFields, f.name ≠ "" ∧ f.type.IsDefinable := by
  induction type with
  | primitive | logical | unknown => exact fun f hf => absurd hf List.not_mem_nil
  | array element elementNullable ih => exact fun f hf => ih h f (mem_structFields_array hf)
  | map key value valueNullable =>
    intro f hf
    rcases List.mem_cons.mp hf with rfl | hf
    · exact ⟨(by decide : MapEntry.keyName ≠ ""), h.1⟩
    · obtain rfl := List.mem_singleton.mp hf
      exact ⟨(by decide : MapEntry.valueName ≠ ""), h.2⟩
  | row fields =>
    intro f hf
    obtain ⟨hname, _, htype⟩ := allDefinable_iff.mp h.2 f hf
    exact ⟨hname, htype⟩

/-- A column is read back if the columns inside it are. -/
theorem readsBack_of_structFields {type : FieldType} (hdefinable : type.IsDefinable)
    (h : ∀ f ∈ type.structFields, f.type.ReadsBack) : type.ReadsBack := by
  intro name nullable description c mapNullable hname hc
  obtain ⟨keyword, mode, fields, rfl, hkeyword, hmode, hfields⟩ := toColumn_eq_ok hc
  have hupper := Keyword.toUpper_of_mem hkeyword
  cases fields with
  | none =>
    rw [Column.documentOf]
    exact Column.ofJson_document false hname hupper hmode rfl
  | some columns =>
    have hnested := map_ofJson_documentsOf
      (fun f hf => ⟨(isDefinable_structFields hdefinable f hf).1, h f hf⟩) (hfields columns rfl)
    rw [Column.documentOf]
    exact Column.ofJson_document _ hname hupper hmode (congrArg some hnested)

/-- The columns of an array are those of the parts of its element, so it is the parts of a type
that carry the induction. -/
theorem readsBack_structFields {type : FieldType} (h : type.IsDefinable) :
    ∀ f ∈ type.structFields, f.type.ReadsBack := by
  induction type with
  | primitive | logical | unknown => exact fun f hf => absurd hf List.not_mem_nil
  | array element elementNullable ih => exact fun f hf => ih h f (mem_structFields_array hf)
  | map key value valueNullable hkey hvalue =>
    intro f hf
    rcases List.mem_cons.mp hf with rfl | hf
    · exact readsBack_of_structFields h.1 (hkey h.1)
    · obtain rfl := List.mem_singleton.mp hf
      exact readsBack_of_structFields h.2 (hvalue h.2)
  | row fields ih =>
    intro f hf
    have htype := (isDefinable_structFields h f hf).2
    exact readsBack_of_structFields htype (ih f hf htype)

end FieldType

/-- The columns of a schema that a document tells are read from their document. -/
theorem TableSchema.ofJson_tableDocument {schema : Schema} {columns : TableSchema}
    (h : (FieldType.row schema).IsDefinable) (hcolumns : schema.toTable = .ok columns) :
    TableSchema.ofJson (schema.tableDocument columns) = .ok columns := by
  have hitems := FieldType.map_ofJson_documentsOf
    (fun f hf => ⟨(FieldType.isDefinable_structFields h f hf).1,
      FieldType.readsBack_structFields h f hf⟩) hcolumns
  exact ofJson_eq_ok.mpr (checkJson_eq_valid.mpr ⟨_, Or.inr ⟨_, rfl, rfl⟩, hitems⟩)

/-! ### Their text -/

theorem Column.allTextual_documentsOf {columns : List Column}
    (h : ∀ c ∈ columns, ∀ type nullable, (documentOf type nullable c).IsTextual)
    (fields : List Field) : Json.AllTextual (documentsOf fields columns) := by
  induction columns generalizing fields with
  | nil => cases fields <;> exact trivial
  | cons c columns ih =>
    cases fields with
    | nil => exact trivial
    | cons f fields =>
      exact ⟨h c List.mem_cons_self _ _, ih (fun c hc => h c (List.mem_cons_of_mem _ hc)) fields⟩

/-- The written form of a column has no numbers in it. -/
theorem Column.isTextual_documentOf (c : Column) (type : FieldType) (nullable : Bool) :
    (documentOf type nullable c).IsTextual := by
  induction c generalizing type nullable with
  | leaf name keyword mode description =>
    rw [documentOf]
    exact isTextual_document keyword false fun _ hnone => absurd hnone (by simp)
  | nested name keyword mode columns description ih =>
    rw [documentOf]
    exact isTextual_document keyword _ fun _ hsome =>
      Option.some.inj hsome ▸ allTextual_documentsOf ih type.structFields

/-- The document of the columns of a schema has no numbers in it. -/
theorem Schema.isTextual_tableDocument (schema : Schema) (columns : TableSchema) :
    (schema.tableDocument columns).IsTextual := by
  refine Json.isTextual_object ["fields"] (by decide) (List.Sublist.refl _) ?_
  have hitems := Column.allTextual_documentsOf
    (fun c (_ : c ∈ columns) type nullable => c.isTextual_documentOf type nullable) schema
  simpa [Json.IsTextual] using hitems

end WarehouseRows
