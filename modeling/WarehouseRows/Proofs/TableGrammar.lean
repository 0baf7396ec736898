import WarehouseRows.Proofs.SchemaReading
import WarehouseRows.Proofs.TableDocuments

/-!
# Which documents are tables

The documents of tables have a grammar: a list of columns, bare or as a member of an object, where a
column has a name and a type, may have a mode, a description and a list of columns inside, and
whatever else. It is stated apart from the reader, and the reader takes the documents of the grammar
and no others.

What is kept of a document is told by the document as well: the members that the grammar names, with
the type in capital letters, at every depth and in order. All other documents are refused as
mismatches with the schema.

## Main definitions

* `Column.IsDocument`, `TableSchema.IsDocument`: the grammar.
* `Column.Keeps`, `TableSchema.Keeps`: what is kept of a document.
-/

namespace WarehouseRows

/-! ## Members that may be missing -/

/-- A member that may be missing is read as `o` where `o` is what is written there. -/
theorem Shape.optional_eq_valid_iff {α : Type} {members : Members Json} {name : String}
    {check : Json → Checked α} {written : α → Json} {P : α → Prop}
    (h : ∀ j a, check j = .valid a ↔ j = written a ∧ P a) {o : Option α} :
    member members name (optional check) = .valid o ↔
      members.get? name = o.map written ∧ ∀ a, o = some a → P a := by
  rw [optional_eq_valid]
  cases o with
  | none => simp
  | some a =>
    simp only [Option.map_some, Option.map_eq_some_iff, h, Option.some.injEq, forall_eq']
    grind

namespace Column

/-! ## The grammar -/

/-- Whether a value is a word for a mode. -/
def IsModeWord (j : Json) : Prop :=
  j = .string "REQUIRED" ∨ j = .string "NULLABLE" ∨ j = .string "REPEATED"

/-- Whether members tell a column, apart from the columns inside. -/
structure IsHead (members : Members Json) : Prop where
  name : ∃ name, members.get? "name" = some (.string name) ∧ name ≠ ""
  type : ∃ keyword, members.get? "type" = some (.string keyword) ∧ keyword ≠ ""
  mode : members.MayHold "mode" IsModeWord
  description : members.MayHold "description" Json.IsText

/-- Whether a document is one of a column. -/
inductive IsDocument : Json → Prop
  | leaf {members : Members Json} (hhead : IsHead members)
      (hfields : members.get? "fields" = none) : IsDocument (.object members)
  | nested {members : Members Json} {items : List Json} (hhead : IsHead members)
      (hfields : members.get? "fields" = some (.array items))
      (hitems : ∀ item ∈ items, IsDocument item) : IsDocument (.object members)

/-! ## What is kept -/

/-- Whether a column has the parts that members tell, apart from the columns inside, with its type
in capital letters. -/
structure KeepsHead (members : Members Json) (c : Column) : Prop where
  name : members.get? "name" = some (.string c.name)
  type : ∃ keyword, members.get? "type" = some (.string keyword) ∧
    c.keyword = some (Text.toUpper keyword)
  mode : members.get? "mode" = c.mode.map (fun m => .string m.name) ∧ Mode.IsWord c.mode
  description : members.get? "description" = c.description.map .string

/-- Whether a column is what is kept of a document. -/
inductive Keeps : Json → Column → Prop
  | leaf {members : Members Json} {c : Column} (hhead : KeepsHead members c)
      (hfields : members.get? "fields" = none) (hinside : c.fields = none) :
      Keeps (.object members) c
  | nested {members : Members Json} {items : List Json} {c : Column} {columns : List Column}
      (hhead : KeepsHead members c) (hfields : members.get? "fields" = some (.array items))
      (hinside : c.fields = some columns) (hcolumns : List.Forall₂ Keeps items columns) :
      Keeps (.object members) c

/-! ## Heads -/

theorem oneOf_words_eq_valid {j : Json} {m : Mode} :
    Shape.oneOf Mode.words j = .valid m ↔
      j = .string m.name ∧ m ∈ Mode.words.map Prod.snd := by
  have hnames : ∀ p ∈ Mode.words, p.1 = p.2.name := by decide
  have hlookup : ∀ m ∈ Mode.words.map Prod.snd, Mode.words.lookup m.name = some m := by decide
  rw [Shape.oneOf_eq_valid]
  constructor
  · rintro ⟨s, rfl, h⟩
    have hmem := Keyword.mem_of_lookup h
    exact ⟨congrArg Json.string (hnames _ hmem), List.mem_map_of_mem (f := Prod.snd) hmem⟩
  · rintro ⟨rfl, h⟩
    exact ⟨m.name, rfl, hlookup m h⟩

section Head

variable {members : Members Json} {c : Column}

theorem mode_eq_valid_iff {mode : Option Mode} :
    Shape.member members "mode" (Shape.optional (Shape.oneOf Mode.words)) = .valid mode ↔
      members.get? "mode" = mode.map (fun m => .string m.name) ∧ Mode.IsWord mode :=
  Shape.optional_eq_valid_iff fun _ _ => oneOf_words_eq_valid

theorem description_eq_valid_iff {text : Option String} :
    Shape.member members "description" (Shape.optional Shape.string) = .valid text ↔
      members.get? "description" = text.map .string := by
  have hstring (j : Json) (s : String) :
      Shape.string j = .valid s ↔ j = .string s ∧ True := by
    rw [Shape.string_eq_valid, and_true]
  simpa using Shape.optional_eq_valid_iff hstring

theorem isModeWord_iff {j : Json} :
    IsModeWord j ↔ ∃ m, Shape.oneOf Mode.words j = .valid m := by
  simp only [oneOf_words_eq_valid, IsModeWord]
  constructor
  · rintro (rfl | rfl | rfl)
    · exact ⟨.required, rfl, by decide⟩
    · exact ⟨.nullable, rfl, by decide⟩
    · exact ⟨.repeated, rfl, by decide⟩
  · rintro ⟨m, rfl, hm⟩
    have hwords : m = .required ∨ m = .nullable ∨ m = .repeated := by simpa [Mode.words] using hm
    rcases hwords with rfl | rfl | rfl
    · exact Or.inl rfl
    · exact Or.inr (Or.inl rfl)
    · exact Or.inr (Or.inr rfl)

theorem mayHold_isModeWord_iff :
    members.MayHold "mode" IsModeWord ↔
      ∃ mode, Shape.member members "mode" (Shape.optional (Shape.oneOf Mode.words)) =
        .valid mode := by
  rw [Shape.exists_optional_eq_valid]
  simp only [Members.MayHold, isModeWord_iff]

/-- A column is read where its head is one of the grammar and what is kept of it, and the columns
inside are read. -/
theorem ofJson_object_eq_valid :
    ofJson (.object members) = .valid c ↔
      IsHead members ∧ KeepsHead members c ∧ nestedOfJson members = .valid c.fields := by
  rw [ofJson_eq_valid]
  constructor
  · rintro ⟨_, keyword, hmembers, hname, htype, hupper, hmode, hinside, hdescription⟩
    obtain rfl := Json.object.inj hmembers
    refine ⟨⟨⟨_, hname⟩, ⟨keyword, htype⟩, mayHold_isModeWord_iff.mpr ⟨_, hmode⟩,
      FieldType.exists_text_eq_valid.mp ⟨_, hdescription⟩⟩, ?_, hinside⟩
    exact ⟨hname.1, ⟨keyword, htype.1, hupper⟩, mode_eq_valid_iff.mp hmode,
      description_eq_valid_iff.mp hdescription⟩
  · rintro ⟨hhead, hkeeps, hinside⟩
    obtain ⟨name, hname, hfilled⟩ := hhead.name
    obtain ⟨keyword, htype, hword⟩ := hhead.type
    obtain ⟨keyword', htype', hupper⟩ := hkeeps.type
    obtain rfl : keyword = keyword' := by simpa [htype] using htype'
    obtain rfl : name = c.name := by simpa [hname] using hkeeps.name
    exact ⟨members, keyword, rfl, ⟨hname, hfilled⟩, ⟨htype, hword⟩, hupper,
      mode_eq_valid_iff.mpr hkeeps.mode, hinside, description_eq_valid_iff.mpr hkeeps.description⟩

/-- Every head of the grammar has parts to keep. -/
theorem exists_keepsHead (h : IsHead members) (fields : Option (List Column)) :
    ∃ c : Column, KeepsHead members c ∧ c.fields = fields := by
  obtain ⟨name, hname, _⟩ := h.name
  obtain ⟨keyword, htype, _⟩ := h.type
  obtain ⟨mode, hmode⟩ := mayHold_isModeWord_iff.mp h.mode
  obtain ⟨text, htext⟩ := FieldType.exists_text_eq_valid.mpr h.description
  exact ⟨⟨name, some (Text.toUpper keyword), mode, fields, text⟩,
    ⟨hname, ⟨keyword, htype, rfl⟩, mode_eq_valid_iff.mp hmode, description_eq_valid_iff.mp htext⟩,
    rfl⟩

end Head

/-! ## Columns -/

theorem isDocument_object {members : Members Json} :
    IsDocument (.object members) ↔ IsHead members ∧ (members.get? "fields" = none ∨
      ∃ items, members.get? "fields" = some (.array items) ∧ ∀ item ∈ items, IsDocument item) := by
  constructor
  · rintro (⟨hhead, hfields⟩ | ⟨hhead, hfields, hitems⟩)
    · exact ⟨hhead, Or.inl hfields⟩
    · exact ⟨hhead, Or.inr ⟨_, hfields, hitems⟩⟩
  · rintro ⟨hhead, hfields | ⟨items, hfields, hitems⟩⟩
    · exact .leaf hhead hfields
    · exact .nested hhead hfields hitems

theorem keeps_object {members : Members Json} {c : Column} :
    Keeps (.object members) c ↔ KeepsHead members c ∧
      ((members.get? "fields" = none ∧ c.fields = none) ∨
        ∃ items columns, members.get? "fields" = some (.array items) ∧ c.fields = some columns ∧
          List.Forall₂ Keeps items columns) := by
  constructor
  · rintro (⟨hhead, hfields, hinside⟩ | ⟨hhead, hfields, hinside, hcolumns⟩)
    · exact ⟨hhead, Or.inl ⟨hfields, hinside⟩⟩
    · exact ⟨hhead, Or.inr ⟨_, _, hfields, hinside, hcolumns⟩⟩
  · rintro ⟨hhead, ⟨hfields, hinside⟩ | ⟨items, columns, hfields, hinside, hcolumns⟩⟩
    · exact .leaf hhead hfields hinside
    · exact .nested hhead hfields hinside hcolumns

/-- Items each of which is read are read as a list. -/
theorem exists_columns {items : List Json} (h : ∀ item ∈ items, ∃ c, ofJson item = .valid c) :
    ∃ columns : List Column, items.map ofJson = columns.map .valid := by
  induction items with
  | nil => exact ⟨[], rfl⟩
  | cons item items ih =>
    obtain ⟨c, hc⟩ := h item List.mem_cons_self
    obtain ⟨columns, hcolumns⟩ := ih fun i hi => h i (List.mem_cons_of_mem _ hi)
    exact ⟨c :: columns, by rw [List.map_cons, List.map_cons, hc, hcolumns]⟩

/-- A document of a column is read. -/
theorem exists_ofJson {j : Json} (h : IsDocument j) : ∃ c, ofJson j = .valid c := by
  induction h with
  | leaf hhead hfields =>
    obtain ⟨c, hkeeps, hinside⟩ := exists_keepsHead hhead none
    refine ⟨c, ofJson_object_eq_valid.mpr ⟨hhead, hkeeps, ?_⟩⟩
    exact nestedOfJson_eq_valid.mpr (Or.inl ⟨hfields, hinside⟩)
  | nested hhead hfields hitems ih =>
    obtain ⟨columns, hcolumns⟩ := exists_columns ih
    obtain ⟨c, hkeeps, hinside⟩ := exists_keepsHead hhead (some columns)
    refine ⟨c, ofJson_object_eq_valid.mpr ⟨hhead, hkeeps, ?_⟩⟩
    exact nestedOfJson_eq_valid.mpr (Or.inr ⟨_, _, hfields, hinside, hcolumns⟩)

theorem map_ofJson_eq_iff {columns : List Column}
    (h : ∀ c ∈ columns, ∀ j, ofJson j = .valid c ↔ IsDocument j ∧ Keeps j c) {items : List Json} :
    items.map ofJson = columns.map .valid ↔
      (∀ item ∈ items, IsDocument item) ∧ List.Forall₂ Keeps items columns := by
  induction columns generalizing items with
  | nil => cases items <;> simp
  | cons c columns ih =>
    cases items with
    | nil => simp
    | cons item items =>
      have hrest : items.map ofJson = columns.map .valid ↔ _ :=
        ih fun c hc => h c (List.mem_cons_of_mem _ hc)
      simp only [List.map_cons, List.cons.injEq, h c List.mem_cons_self, hrest,
        List.forall_mem_cons, List.forall₂_cons]
      tauto

/-- A document is read as a column where it is one of a column and the column is what is kept of
it. -/
theorem ofJson_eq_valid_iff {j : Json} {c : Column} :
    ofJson j = .valid c ↔ IsDocument j ∧ Keeps j c := by
  induction c generalizing j with
  | leaf name keyword mode description =>
    cases j with
    | object members =>
      rw [ofJson_object_eq_valid, nestedOfJson_eq_valid, isDocument_object, keeps_object]
      simp only [reduceCtorEq, false_and, and_false, exists_false, or_false, and_true]
      tauto
    | _ => exact iff_of_false (by simp [ofJson_eq_valid]) nofun
  | nested name keyword mode columns description ih =>
    cases j with
    | object members =>
      rw [ofJson_object_eq_valid, nestedOfJson_eq_valid, isDocument_object, keeps_object]
      simp only [reduceCtorEq, and_false, false_or, Option.some.injEq]
      constructor
      · rintro ⟨hhead, hkeeps, items, _, hfields, rfl, hitems⟩
        obtain ⟨hdocuments, hcolumns⟩ := (map_ofJson_eq_iff ih).mp hitems
        exact ⟨⟨hhead, Or.inr ⟨items, hfields, hdocuments⟩⟩,
          hkeeps, items, _, hfields, rfl, hcolumns⟩
      · rintro ⟨⟨hhead, hinside⟩, hkeeps, items, _, hfields, rfl, hcolumns⟩
        have hdocuments : ∀ item ∈ items, IsDocument item := by
          rcases hinside with hnone | ⟨items', hfields', hdocuments⟩
          · exact absurd (hfields.symm.trans hnone) (by simp)
          · obtain rfl : items = items' := by simpa [hfields] using hfields'
            exact hdocuments
        exact ⟨hhead, hkeeps, items, _, hfields, rfl,
          (map_ofJson_eq_iff ih).mpr ⟨hdocuments, hcolumns⟩⟩
    | _ => exact iff_of_false (by simp [ofJson_eq_valid]) nofun

end Column

/-! ## Tables -/

namespace TableSchema

/-- Whether a document gives a list of columns: bare, or as a member of an object. -/
inductive Lists : Json → List Json → Prop
  | bare (items : List Json) : Lists (.array items) items
  | wrapped {members : Members Json} {items : List Json}
      (hget : members.get? "fields" = some (.array items)) : Lists (.object members) items

/-- Whether a document is one of a table. -/
def IsDocument (j : Json) : Prop :=
  ∃ items, Lists j items ∧ ∀ item ∈ items, Column.IsDocument item

/-- Whether columns are what is kept of a document. -/
def Keeps (j : Json) (columns : TableSchema) : Prop :=
  ∃ items, Lists j items ∧ List.Forall₂ Column.Keeps items columns

theorem lists_iff {j : Json} {items : List Json} :
    Lists j items ↔ j = .array items ∨
      ∃ members, j = .object members ∧ Members.get? members "fields" = some (.array items) := by
  constructor
  · rintro (_ | hget)
    · exact Or.inl rfl
    · exact Or.inr ⟨_, rfl, hget⟩
  · rintro (rfl | ⟨members, rfl, hget⟩)
    · exact .bare items
    · exact .wrapped hget

/-- A document gives only one list. -/
theorem Lists.unique {j : Json} {items items' : List Json} (h : Lists j items)
    (h' : Lists j items') : items = items' := by
  cases h with
  | bare => cases h' with | bare => rfl
  | wrapped hget =>
    cases h' with
    | wrapped hget' => simpa [hget] using hget'

variable {j : Json} {columns : TableSchema}

theorem ofJson_eq_ok_iff_lists :
    ofJson j = .ok columns ↔
      ∃ items, Lists j items ∧ items.map Column.ofJson = columns.map .valid := by
  rw [ofJson_eq_ok, checkJson_eq_valid]
  simp only [lists_iff]

theorem ofJson_eq_ok_iff_keeps : ofJson j = .ok columns ↔ IsDocument j ∧ Keeps j columns := by
  have hmap (items : List Json) : items.map Column.ofJson = columns.map .valid ↔
      (∀ item ∈ items, Column.IsDocument item) ∧ List.Forall₂ Column.Keeps items columns :=
    Column.map_ofJson_eq_iff fun _ _ _ => Column.ofJson_eq_valid_iff
  rw [ofJson_eq_ok_iff_lists]
  simp only [hmap]
  constructor
  · rintro ⟨items, hlists, hdocuments, hkeeps⟩
    exact ⟨⟨items, hlists, hdocuments⟩, items, hlists, hkeeps⟩
  · rintro ⟨⟨items, hlists, hdocuments⟩, items', hlists', hkeeps⟩
    obtain rfl := hlists.unique hlists'
    exact ⟨items, hlists, hdocuments, hkeeps⟩

theorem exists_ofJson_iff : (∃ columns, ofJson j = .ok columns) ↔ IsDocument j := by
  constructor
  · rintro ⟨columns, h⟩
    exact (ofJson_eq_ok_iff_keeps.mp h).1
  · rintro ⟨items, hlists, hdocuments⟩
    obtain ⟨columns, hcolumns⟩ :=
      Column.exists_columns fun item hitem => Column.exists_ofJson (hdocuments item hitem)
    exact ⟨columns, ofJson_eq_ok_iff_lists.mpr ⟨items, hlists, hcolumns⟩⟩

theorem code_of_ofJson {e : ConversionError} (h : ofJson j = .error e) :
    e.code = .schemaMismatch := by
  obtain ⟨issues, _, rfl⟩ := Outcome.mapError_eq_error.mp h
  rfl

/-- A document that is no table is refused. -/
theorem exists_error_iff :
    (∃ e, ofJson j = .error e ∧ e.code = .schemaMismatch) ↔ ¬ IsDocument j := by
  rw [← exists_ofJson_iff]
  constructor
  · rintro ⟨e, he, _⟩ ⟨columns, hcolumns⟩
    exact absurd (he.symm.trans hcolumns) (by simp)
  · intro hnone
    cases h : ofJson j with
    | ok columns => exact absurd ⟨columns, h⟩ hnone
    | error e => exact ⟨e, rfl, code_of_ofJson h⟩

/-- A bare list is read as the object that has it as its member. -/
theorem ofJson_wrapped (items : List Json) :
    ofJson (.object [("fields", .array items)]) = ofJson (.array items) :=
  rfl

/-- Reading accepts the documents of tables and refuses all others as mismatches with the schema.
What it gives for a document is what is kept of it, and the same for a bare list as for an object
with this list. -/
theorem ofJson_grammar (j : Json) (items : List Json) :
    ((∃ columns, ofJson j = .ok columns) ↔ IsDocument j) ∧
      (∀ columns, ofJson j = .ok columns ↔ IsDocument j ∧ Keeps j columns) ∧
      ((∃ e, ofJson j = .error e ∧ e.code = .schemaMismatch) ↔ ¬ IsDocument j) ∧
      ofJson (.object [("fields", .array items)]) = ofJson (.array items) :=
  ⟨exists_ofJson_iff, fun _ => ofJson_eq_ok_iff_keeps, exists_error_iff, ofJson_wrapped items⟩

end TableSchema

end WarehouseRows
