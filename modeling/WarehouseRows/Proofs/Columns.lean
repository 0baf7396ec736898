import WarehouseRows.Table.Canonical
import WarehouseRows.Proofs.Outcome

/-!
# Columns and the fields they stand for

What is proved of columns goes by their nesting. Without maps to infer, a column with a
struct keyword stands for a row of the fields of its nested columns, whatever these are,
and any other column for the type of its keyword.

## Main definitions

* `FieldType.item`: what a column of a type holds, once or repeatedly.
-/

namespace WarehouseRows

/-- What passes from the nested columns of every column to the column holds for all columns. -/
@[induction_eliminator]
theorem Column.induction {motive : Column → Prop}
    (leaf : ∀ name keyword mode description,
      motive ⟨name, keyword, mode, none, description⟩)
    (nested : ∀ name keyword mode columns description, (∀ c ∈ columns, motive c) →
      motive ⟨name, keyword, mode, some columns, description⟩) (c : Column) : motive c :=
  @Column.rec motive (fun fields => ∀ columns, fields = some columns → ∀ c ∈ columns, motive c)
    (fun columns => ∀ c ∈ columns, motive c)
    (fun name keyword mode fields description hfields => by
      cases fields with
      | none => exact leaf name keyword mode description
      | some columns => exact nested name keyword mode columns description (hfields columns rfl))
    (fun _ h => absurd h (by simp))
    (fun columns hcolumns _ h => Option.some.inj h ▸ hcolumns)
    (fun _ hc => absurd hc List.not_mem_nil)
    (fun _ _ hfirst hrest c hc => by
      rcases List.mem_cons.mp hc with rfl | hc
      · exact hfirst
      · exact hrest c hc) c

/-- What a table of keywords answers is in it. -/
theorem Keyword.mem_of_lookup {α : Type} {table : List (String × α)} {k : String} {a : α}
    (h : table.lookup k = some a) : (k, a) ∈ table := by
  obtain ⟨before, behind, rfl, _⟩ := List.lookup_eq_some_iff.mp h
  exact List.mem_append_right _ List.mem_cons_self

/-! ## What columns hold -/

namespace FieldType

/-- What a column of a type holds: the elements of an array, values of the type otherwise. -/
def item : FieldType → FieldType
  | .array element _ => element
  | type => type

/-- Whether a type is an array. -/
def isArray : FieldType → Bool
  | .array .. => true
  | _ => false

/-- Whether a type is a row. -/
def isRow : FieldType → Bool
  | .row _ => true
  | _ => false

end FieldType

/-! ## Distinct names -/

namespace Schema

theorem firstRepeated?_eq_none {fields : List Field} {seen : List String} :
    firstRepeated? seen fields = none ↔
      (fields.map Named.name).Nodup ∧ ∀ f ∈ fields, f.name ∉ seen := by
  induction fields generalizing seen with
  | nil => simp [firstRepeated?]
  | cons f rest ih =>
    rw [firstRepeated?]
    by_cases hseen : f.name ∈ seen
    · simp [hseen]
    · simp only [List.contains_eq_mem, hseen, decide_false, Bool.false_eq_true, if_false, ih]
      simp only [List.map_cons, List.nodup_cons, List.mem_map, List.mem_cons]
      grind

/-- A schema is created from fields with distinct names, and holds them. -/
theorem create_eq_ok {fields : List Field} {schema : Schema} :
    create fields = .ok schema ↔ schema = fields ∧ (fields.map Named.name).Nodup := by
  rw [create]
  split
  · rename_i name hrepeated
    have hnot : ¬ (fields.map Named.name).Nodup := by
      intro hnodup
      have hnone := firstRepeated?_eq_none.mpr ⟨hnodup, fun _ _ => List.not_mem_nil⟩
      rw [hnone] at hrepeated
      exact absurd hrepeated (by simp)
    simp [hnot]
  · rename_i hnone
    have hnodup := (firstRepeated?_eq_none.mp hnone).1
    simp [hnodup, eq_comm]

end Schema

namespace Column

/-- A type that a keyword stands for is listed with it. -/
theorem scalarType_eq_ok {keyword : Option String} {type : FieldType}
    (h : scalarType keyword = .ok type) : ∃ k, keyword = some k ∧ (k, type) ∈ scalarTypes := by
  rw [scalarType] at h
  split at h
  · rename_i found hfound
    obtain rfl := Except.ok.inj h
    obtain ⟨k, rfl, hk⟩ := Option.bind_eq_some_iff.mp hfound
    exact ⟨k, rfl, Keyword.mem_of_lookup hk⟩
  · exact absurd h (by simp)

/-! ## Fields of columns -/

/-- A column without a struct keyword stands for the type of its keyword. -/
theorem baseType_scalar {options : SchemaOptions} {c : Column}
    (hstruct : isStruct c.keyword = false) : baseType options c = scalarType c.keyword := by
  match c with
  | ⟨_, _, _, none, _⟩ | ⟨_, _, _, some [], _⟩ | ⟨_, _, _, some [_], _⟩ | ⟨_, _, _, some [_, _], _⟩
  | ⟨_, _, _, some (_ :: _ :: _ :: _), _⟩ =>
    rw [baseType.eq_def]
    simp only [hstruct, Bool.false_eq_true, if_false]

/-- A column with nested columns, when no struct is taken for a map. -/
theorem baseType_nested (name : String) (keyword : Option String) (mode : Option Mode)
    (columns : List Column) (description : Option String) :
    baseType { } ⟨name, keyword, mode, some columns, description⟩ =
      if isStruct keyword then do
        let fields ← toFields { } columns
        let fields ← Schema.create fields
        pure (.row fields)
      else scalarType keyword := by
  match columns with
  | [] => rfl
  | [_] => rfl
  | [_, _] => simp [baseType]
  | _ :: _ :: _ :: _ => rfl

/-- A struct that is not one of a key and a value is taken for a row, whether maps are inferred or
not. -/
theorem baseType_of_names_ne {options : SchemaOptions} {keyword : Option String}
    {columns : List Column} (name : String) (mode : Option Mode) (description : Option String)
    (hstruct : isStruct keyword = true)
    (hnames : columns.map Column.name ≠ [MapEntry.keyName, MapEntry.valueName]) :
    baseType options ⟨name, keyword, mode, some columns, description⟩ = (do
      let fields ← toFields options columns
      let fields ← Schema.create fields
      pure (.row fields)) := by
  match columns with
  | [] => rw [baseType.eq_def]; simp only [hstruct, if_true]
  | [c] => rw [baseType.eq_def]; simp only [hstruct, if_true]
  | [key, value] =>
    have hentry : ¬ (options.inferMaps = true ∧ key.name = MapEntry.keyName ∧
        value.name = MapEntry.valueName) := by
      rintro ⟨_, hkey, hvalue⟩
      exact hnames (by simp [hkey, hvalue])
    rw [baseType, if_pos hstruct, if_neg hentry]
  | c :: c' :: c'' :: rest => rw [baseType.eq_def]; simp only [hstruct, if_true]

theorem toFields_cons_eq_ok {options : SchemaOptions} {c : Column} {columns : List Column}
    {fields : List Field} (h : toFields options (c :: columns) = .ok fields) :
    ∃ type others, baseType options c = .ok type ∧ toFields options columns = .ok others ∧
      fields = ⟨c.name, withMode c.mode type, c.isNullable,
        ConversionError.present? c.description⟩ :: others := by
  rw [toFields] at h
  obtain ⟨type, htype, h⟩ := Outcome.bind_eq_ok.mp h
  obtain ⟨others, hothers, h⟩ := Outcome.bind_eq_ok.mp h
  exact ⟨type, others, Outcome.mapError_eq_ok.mp htype, hothers, (Except.ok.inj h).symm⟩

/-- The fields of columns have the names of the columns. -/
theorem names_of_toFields {options : SchemaOptions} {columns : List Column} {fields : List Field}
    (h : toFields options columns = .ok fields) :
    fields.map Named.name = columns.map Column.name := by
  induction columns generalizing fields with
  | nil =>
    obtain rfl := Except.ok.inj h
    rfl
  | cons c columns ih =>
    obtain ⟨type, others, _, hothers, rfl⟩ := toFields_cons_eq_ok h
    rw [List.map_cons, List.map_cons, ih hothers]

end Column

end WarehouseRows
