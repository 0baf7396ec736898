import WarehouseRows.Proofs.RepeatedKeys
import WarehouseRows.Row.Encode

/-!
# Where a conversion comes to

A conversion goes from a place, which is a type with a value, to the places inside it, one after
another: the items of a list, the key and the value of every entry of a map, the fields of a row.
It comes to a place only when all before it convert. So the conversion of a list, of the entries of
a map and of the fields of a row fails just as the first place does that does not convert.

## Main definitions

* `Converter`: the two readers and the writer.
* `Place`: what is converted, and to which type.
* `Converter.convertFields`: the fields of a row, for all three.
* `Converter.Reaches`: from a place to the places inside it that its conversion comes to.
-/

namespace WarehouseRows

theorem Value.isAbsent_of_isObject {v : Value} (h : v.isObject = true) : v.isAbsent = false := by
  cases v with
  | null | missing => exact absurd h (by decide)
  | _ => rfl

/-- A converter of values: a reader, or the writer of table rows. -/
inductive Converter where
  | reads (reader : MapReader)
  | writes

/-- A value at a place of a type. Where a field is asked for its value, asking may fail. -/
structure Place where
  type : FieldType
  nullable : Bool
  found : Except Failure Value

namespace Converter

/-! ## Conversions -/

/-- What a converter makes of a value. -/
def convertValue : Converter → FieldType → Bool → Value → Except Failure Value
  | .reads reader, type, nullable, value => reader.read type nullable value
  | .writes, type, nullable, value => type.encode nullable value

/-- What a converter makes of a place. -/
def convert (c : Converter) (p : Place) : Except Failure Value :=
  p.found.bind (c.convertValue p.type p.nullable)

/-- Whether a place converts. -/
def Converts (c : Converter) (p : Place) : Prop :=
  ∃ value, c.convert p = .ok value

/-- The places of the fields of a row, by name. -/
def places (c : Converter) (fields : List Field) (row : Value) : List (String × Place) :=
  match c, row with
  | .reads _, record => fields.map fun f => (f.name, ⟨f.type, f.nullable, record.fieldOf f.name⟩)
  | .writes, .list values =>
    (fields.zip values).map fun p => (p.1.name, ⟨p.1.type, p.1.nullable, .ok p.2.orNull⟩)
  | .writes, _ => []

/-- Whether a converter takes a value for a row of fields. -/
def Opens (c : Converter) (fields : List Field) (value : Value) : Prop :=
  match c with
  | .reads (.native _) => Avro.isRecord value = true
  | .reads .cells => value.isObject = true
  | .writes => ∃ row, value = .list row ∧ row.length = fields.length

/-- What is converted in place of an item of a list: a reader of cells takes the wrapping off. -/
def item (c : Converter) (element : FieldType) (raw : Value) : Value :=
  match c with
  | .reads .cells => Cell.unwrapElement element raw
  | _ => raw

/-! ## Places inside places -/

/-- Whether the conversion of a row comes to the place of a field: those before it convert. -/
def ReachesField (c : Converter) (fields : List Field) (row : Value) (name : String) (p : Place) :
    Prop :=
  ∃ before after, c.places fields row = before ++ (name, p) :: after ∧
    ∀ q ∈ before, c.Converts q.2

/-- Whether the conversion of a place comes to a place inside it, and the name of the field that
leads there, if it is a field: all that is converted before it converts. -/
inductive Reaches : Converter → Place → List String → Place → Prop
  | item {c : Converter} {element : FieldType} {elementNullable nullable : Bool}
      {before after : List Value} {raw : Value}
      (h : ∀ x ∈ before, c.Converts ⟨element, elementNullable, .ok (c.item element x)⟩) :
      Reaches c ⟨.array element elementNullable, nullable, .ok (.list (before ++ raw :: after))⟩ []
        ⟨element, elementNullable, .ok (c.item element raw)⟩
  | rawKey {reader : MapReader} {key value : FieldType} {valueNullable nullable : Bool}
      {before after : List Value} {raw : Value} {entry : Value × Value}
      {stored : List (Value × Value)}
      (h : reader.read (.map key value valueNullable) nullable (.list before) = .ok (.map stored))
      (hsplit : reader.split (.map key value valueNullable) raw = .ok entry) :
      Reaches (.reads reader)
        ⟨.map key value valueNullable, nullable, .ok (.list (before ++ raw :: after))⟩ []
        ⟨key, false, .ok entry.1⟩
  | rawValue {reader : MapReader} {key value : FieldType} {valueNullable nullable : Bool}
      {before after : List Value} {raw new : Value} {entry : Value × Value}
      {stored : List (Value × Value)}
      (h : reader.read (.map key value valueNullable) nullable (.list before) = .ok (.map stored))
      (hsplit : reader.split (.map key value valueNullable) raw = .ok entry)
      (hkey : reader.read key false entry.1 = .ok new)
      (hnew : Value.hasKey stored new = false) :
      Reaches (.reads reader)
        ⟨.map key value valueNullable, nullable, .ok (.list (before ++ raw :: after))⟩ []
        ⟨value, valueNullable, .ok entry.2⟩
  | key {key value : FieldType} {valueNullable nullable : Bool}
      {before after : List (Value × Value)} {e : Value × Value}
      (h : ∀ x ∈ before, Converts .writes ⟨key, false, .ok x.1⟩ ∧
        Converts .writes ⟨value, valueNullable, .ok x.2⟩) :
      Reaches .writes ⟨.map key value valueNullable, nullable, .ok (.map (before ++ e :: after))⟩ []
        ⟨key, false, .ok e.1⟩
  | value {key value : FieldType} {valueNullable nullable : Bool}
      {before after : List (Value × Value)} {e : Value × Value}
      (h : ∀ x ∈ before, Converts .writes ⟨key, false, .ok x.1⟩ ∧
        Converts .writes ⟨value, valueNullable, .ok x.2⟩)
      (hkey : Converts .writes ⟨key, false, .ok e.1⟩) :
      Reaches .writes ⟨.map key value valueNullable, nullable, .ok (.map (before ++ e :: after))⟩ []
        ⟨value, valueNullable, .ok e.2⟩
  | field {c : Converter} {fields : List Field} {nullable : Bool} {row : Value} {name : String}
      {p : Place} (hopens : c.Opens fields row) (h : c.ReachesField fields row name p) :
      Reaches c ⟨.row fields, nullable, .ok row⟩ [name] p
  | base {options : ConversionOptions} {identifier : String} {base : FieldType}
      {labels : Option (List String)} {nullable : Bool} {value : Value}
      (hpresent : value.isAbsent = false) :
      Reaches (.reads (.native options))
        ⟨.logical identifier base .passThrough labels, nullable, .ok value⟩ []
        ⟨base, nullable, .ok value⟩

/-! ## Rows and composites -/

/-- What a converter makes of the fields of a row, one after another. -/
def convertFields (c : Converter) (fields : List Field) (row : Value) :
    Except Failure (List Value) :=
  (c.places fields row).mapM fun p => (c.convert p.2).mapError (Failure.inField p.1)

theorem convertFields_native (options : ConversionOptions) (fields : List Field) (record : Value) :
    convertFields (.reads (.native options)) fields record =
      FieldType.readAvroFields options fields record := by
  induction fields with
  | nil => rfl
  | cons f fields ih =>
    rw [FieldType.readAvroFields, ← ih]
    exact List.mapM_cons

theorem convertFields_cells (fields : List Field) (record : Value) :
    convertFields (.reads .cells) fields record = FieldType.parseFields fields record := by
  induction fields with
  | nil => rfl
  | cons f fields ih =>
    rw [FieldType.parseFields, ← ih]
    exact List.mapM_cons

theorem convertFields_writes {fields : List Field} {row : Row}
    (hwidth : row.length = fields.length) :
    FieldType.encodeFields fields row =
      (convertFields .writes fields (.list row)).map fun cells =>
        (fields.map fun f => f.name).zip cells := by
  induction fields generalizing row with
  | nil => rfl
  | cons first fields ih =>
    match row, hwidth with
    | v :: row, hwidth =>
      have hshorter : row.length = fields.length := Nat.add_right_cancel hwidth
      have hrest := ih hshorter
      have hcells : convertFields .writes (first :: fields) (.list (v :: row)) = (do
          let cell ← (first.type.encode first.nullable v.orNull).mapError
            (Failure.inField first.name)
          let cells ← convertFields .writes fields (.list row)
          pure (cell :: cells)) := List.mapM_cons
      rw [hcells, FieldType.encodeFields, List.headD_cons, List.drop_one, List.tail_cons, hrest]
      cases (first.type.encode first.nullable v.orNull).mapError (Failure.inField first.name) with
      | error e => rfl
      | ok cell => cases convertFields .writes fields (.list row) <;> rfl

theorem convertFields_eq_error {c : Converter} {fields : List Field} {row : Value} {f : Failure} :
    c.convertFields fields row = .error f ↔ ∃ name p g, c.ReachesField fields row name p ∧
      c.convert p = .error g ∧ f = g.inField name := by
  rw [convertFields, Outcome.mapM_eq_error]
  constructor
  · rintro ⟨before, ⟨name, p⟩, after, hplaces, hbefore, h⟩
    obtain ⟨g, hg, rfl⟩ := Outcome.mapError_eq_error.mp h
    refine ⟨name, p, g, ⟨before, after, hplaces, fun q hq => ?_⟩, hg, rfl⟩
    obtain ⟨value, h⟩ := hbefore q hq
    exact ⟨value, Outcome.mapError_eq_ok.mp h⟩
  · rintro ⟨name, p, g, ⟨before, after, hplaces, hbefore⟩, hg, rfl⟩
    refine ⟨before, (name, p), after, hplaces, fun q hq => ?_, ?_⟩
    · obtain ⟨value, h⟩ := hbefore q hq
      exact ⟨value, Outcome.mapError_eq_ok.mpr h⟩
    · exact Outcome.mapError_eq_error.mpr ⟨g, hg, rfl⟩

theorem convert_list (c : Converter) (element : FieldType) (elementNullable nullable : Bool)
    (items : List Value) :
    c.convert ⟨.array element elementNullable, nullable, .ok (.list items)⟩ =
      (items.mapM fun raw => c.convert ⟨element, elementNullable, .ok (c.item element raw)⟩).map
        .list := by
  match c with
  | .reads (.native options) => rfl
  | .reads .cells => rfl
  | .writes => rfl

/-- A reader that takes a value for a row reads its fields. -/
theorem read_row {reader : MapReader} {fields : List Field} {nullable : Bool} {row : Value}
    (hopens : Opens (.reads reader) fields row) :
    reader.read (.row fields) nullable row =
      (convertFields (.reads reader) fields row).map .list := by
  match reader with
  | .native options =>
    have hrecord : Avro.isRecord row = true := hopens
    have hpresent : ¬ row.isAbsent = true :=
      Bool.not_eq_true _ ▸ Value.isAbsent_of_isObject (Bool.and_eq_true_iff.mp hrecord).1
    rw [MapReader.read, FieldType.readAvro, if_neg hpresent, if_pos hrecord, convertFields_native]
    rfl
  | .cells =>
    have hobject : row.isObject = true := hopens
    have hpresent : ¬ row.isAbsent = true := Bool.not_eq_true _ ▸ Value.isAbsent_of_isObject hobject
    have htext : Cell.scalarText? row = none := by
      cases row with
      | string | number | bool => exact absurd hobject (by simp [Value.isObject])
      | _ => rfl
    rw [MapReader.read, FieldType.parse, if_neg hpresent, htext, convertFields_cells]
    dsimp only
    rw [if_pos hobject]
    rfl

theorem convert_row_eq_error {c : Converter} {fields : List Field} {nullable : Bool} {row : Value}
    {f : Failure} (hopens : c.Opens fields row) :
    c.convert ⟨.row fields, nullable, .ok row⟩ = .error f ↔
      c.convertFields fields row = .error f := by
  match c with
  | .reads reader =>
    change reader.read (.row fields) nullable row = _ ↔ _
    rw [read_row hopens, Outcome.map_eq_error]
  | .writes =>
    obtain ⟨row, rfl, hwidth⟩ := hopens
    have hwritten : convert .writes ⟨.row fields, nullable, .ok (.list row)⟩ =
        (FieldType.encodeFields fields row).map Value.ofAssignments := by
      change FieldType.encode (.row fields) nullable (.list row) = _
      rw [FieldType.encode, if_neg (by simp [Cell.isNull]), if_pos hwidth]
      rfl
    rw [hwritten, Outcome.map_eq_error, convertFields_writes hwidth, Outcome.map_eq_error]

/-! ### Maps -/

theorem convert_map (key value : FieldType) (valueNullable nullable : Bool)
    (entries : List (Value × Value)) :
    convert .writes ⟨.map key value valueNullable, nullable, .ok (.map entries)⟩ =
      (entries.mapM fun (e : Value × Value) => do
        let key ← convert .writes ⟨key, false, .ok e.1⟩
        let cell ← convert .writes ⟨value, valueNullable, .ok e.2⟩
        pure (Cell.entry key cell)).map .list := by
  rfl

/-- The conversion of an entry comes to the value after the key. -/
theorem entry_eq_error {key value : FieldType} {valueNullable : Bool} {e : Value × Value}
    {f : Failure} :
    (do
      let key ← convert .writes ⟨key, false, .ok e.1⟩
      let cell ← convert .writes ⟨value, valueNullable, .ok e.2⟩
      pure (Cell.entry key cell)) = .error f ↔
    convert .writes ⟨key, false, .ok e.1⟩ = .error f ∨
      (Converts .writes ⟨key, false, .ok e.1⟩ ∧
        convert .writes ⟨value, valueNullable, .ok e.2⟩ = .error f) := by
  rw [Converts]
  cases convert .writes ⟨key, false, .ok e.1⟩ with
  | error g => simp [bind, Except.bind]
  | ok k =>
    cases convert .writes ⟨value, valueNullable, .ok e.2⟩ <;>
      simp [bind, Except.bind, pure, Except.pure]

theorem entry_eq_ok {key value : FieldType} {valueNullable : Bool} {e : Value × Value} :
    (∃ cell, (do
      let key ← convert .writes ⟨key, false, .ok e.1⟩
      let cell ← convert .writes ⟨value, valueNullable, .ok e.2⟩
      pure (Cell.entry key cell)) = .ok cell) ↔
    Converts .writes ⟨key, false, .ok e.1⟩ ∧
      Converts .writes ⟨value, valueNullable, .ok e.2⟩ := by
  rw [Converts, Converts]
  cases convert .writes ⟨key, false, .ok e.1⟩ with
  | error g => simp [bind, Except.bind]
  | ok k =>
    cases convert .writes ⟨value, valueNullable, .ok e.2⟩ <;>
      simp [bind, Except.bind, pure, Except.pure]

/-- A map is written up to its first key or value that does not convert. -/
theorem convert_map_eq_error {key value : FieldType} {valueNullable nullable : Bool}
    {entries : List (Value × Value)} {f : Failure} :
    convert .writes ⟨.map key value valueNullable, nullable, .ok (.map entries)⟩ = .error f ↔
      ∃ before e after, entries = before ++ e :: after ∧
        (∀ x ∈ before, Converts .writes ⟨key, false, .ok x.1⟩ ∧
          Converts .writes ⟨value, valueNullable, .ok x.2⟩) ∧
        (convert .writes ⟨key, false, .ok e.1⟩ = .error f ∨
          (Converts .writes ⟨key, false, .ok e.1⟩ ∧
            convert .writes ⟨value, valueNullable, .ok e.2⟩ = .error f)) := by
  rw [convert_map, Outcome.map_eq_error, Outcome.mapM_eq_error]
  simp only [entry_eq_error, entry_eq_ok]

end Converter

/-! ## Entries that are read -/

namespace Value

variable {split : Value → Except Failure (Value × Value)}
  {readKey readValue : Value → Except Failure Value} {duplicate : Value → Failure}

/-- Entries are read up to the first that cannot join those before it. -/
theorem readEntries_eq_error {entries : List (Value × Value)} {items : List Value} {f : Failure} :
    readEntries split readKey readValue duplicate entries items = .error f ↔
      ∃ before raw after stored, items = before ++ raw :: after ∧
        readEntries split readKey readValue duplicate entries before = .ok stored ∧
        readEntries split readKey readValue duplicate stored [raw] = .error f := by
  constructor
  · intro h
    induction items generalizing entries with
    | nil => exact absurd h (by simp [readEntries])
    | cons raw items ih =>
      have hsplit : raw :: items = [raw] ++ items := rfl
      rw [hsplit, readEntries_append] at h
      rcases Outcome.bind_eq_error.mp h with hraw | ⟨stored, hraw, h⟩
      · exact ⟨[], raw, items, entries, rfl, rfl, hraw⟩
      · obtain ⟨before, failed, after, rest, rfl, hbefore, hfailed⟩ := ih h
        refine ⟨raw :: before, failed, after, rest, rfl, ?_, hfailed⟩
        have hsplit : raw :: before = [raw] ++ before := rfl
        rw [hsplit, readEntries_append, hraw]
        exact hbefore
  · rintro ⟨before, raw, after, stored, rfl, hbefore, hraw⟩
    have hsplit : raw :: after = [raw] ++ after := rfl
    rw [readEntries_append, hbefore, hsplit]
    change readEntries split readKey readValue duplicate stored ([raw] ++ after) = _
    rw [readEntries_append, hraw]
    rfl

/-- An entry cannot join others if it is no entry, if its key is not read or is there already, or if
its value is not read. -/
theorem readEntries_singleton_eq_error {entries : List (Value × Value)} {raw : Value}
    {f : Failure} :
    readEntries split readKey readValue duplicate entries [raw] = .error f ↔
      split raw = .error f ∨ ∃ entry, split raw = .ok entry ∧
        (readKey entry.1 = .error f ∨ ∃ key, readKey entry.1 = .ok key ∧
          ((hasKey entries key = true ∧ duplicate key = f) ∨
            (hasKey entries key = false ∧ readValue entry.2 = .error f))) := by
  rw [readEntries]
  cases split raw with
  | error g => simp [bind, Except.bind]
  | ok entry =>
    cases hkey : readKey entry.1 with
    | error g => simp [bind, Except.bind, hkey]
    | ok key =>
      cases hthere : hasKey entries key with
      | true => simp [bind, Except.bind, hkey, hthere]
      | false =>
        cases hvalue : readValue entry.2 <;>
          simp [bind, Except.bind, hkey, hthere, hvalue, readEntries]

end Value

namespace Converter

/-- Both readers read the entries of a map up to the first that cannot join those before it. -/
theorem read_map_eq_error {reader : MapReader} {key value : FieldType}
    {valueNullable nullable : Bool} {items : List Value} {f : Failure} :
    convert (.reads reader) ⟨.map key value valueNullable, nullable, .ok (.list items)⟩ =
        .error f ↔
      ∃ before raw after stored, items = before ++ raw :: after ∧
        reader.read (.map key value valueNullable) nullable (.list before) = .ok (.map stored) ∧
        (reader.split (.map key value valueNullable) raw = .error f ∨
          ∃ entry, reader.split (.map key value valueNullable) raw = .ok entry ∧
            (reader.read key false entry.1 = .error f ∨
              ∃ new, reader.read key false entry.1 = .ok new ∧
                ((Value.hasKey stored new = true ∧
                    Value.duplicateKey (.map key value valueNullable) new = f) ∨
                  (Value.hasKey stored new = false ∧
                    reader.read value valueNullable entry.2 = .error f)))) := by
  change reader.read _ _ _ = _ ↔ _
  simp only [MapReader.read_map, Outcome.map_eq_error, Outcome.map_eq_ok, Value.map.injEq,
    exists_eq_right, ← Value.readEntries_singleton_eq_error]
  exact Value.readEntries_eq_error

end Converter

end WarehouseRows
