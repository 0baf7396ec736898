import WarehouseRows.Proofs.ListedTables
import WarehouseRows.Proofs.SchemaWalks

/-!
# Walks over columns

Three functions walk over the columns of a table: one finds their schema, one the record schema of an
export and one the descriptor of messages. They look into structs and fail only at other columns, for
a keyword that they do not know. The descriptor names a column in its own failure, the other two do so
from outside. Where a struct is taken for a map, its key and its value have no names.

## Main definitions

* `SchemaWalk.overColumns`: the walks over columns.
* `SchemaWalk.schemas`, `SchemaWalk.records`, `SchemaWalk.messages`: the three walks.
-/

namespace WarehouseRows

open Outcome

/-! ## The walks -/

namespace Column

/-- The columns inside a struct. -/
def inner (c : Column) : List Column :=
  if isStruct c.keyword then c.parts else []

theorem sizeOf_inner (c : Column) : ∀ d ∈ c.inner, sizeOf d < sizeOf c := by
  intro d hd
  obtain ⟨name, keyword, mode, fields, description⟩ := c
  rw [inner] at hd
  split at hd
  · cases fields with
    | none => exact absurd hd List.not_mem_nil
    | some columns =>
      have hlt := List.sizeOf_lt_of_mem (show d ∈ columns from hd)
      simp
      omega
  · exact absurd hd List.not_mem_nil

/-- Whether a column is taken for a map. -/
def isEntry (options : SchemaOptions) (c : Column) : Bool :=
  options.inferMaps && c.inner.map Column.name == [MapEntry.keyName, MapEntry.valueName]

end Column

namespace SchemaWalk

/-- The walk over columns that looks into structs and finds a flaw only in other columns. -/
def overColumns (flaw? : Column → Option ConversionError) (distinct : Bool)
    (tells : Option Column → Bool) : SchemaWalk Column where
  name := Column.name
  inner := Column.inner
  flaw? c := if Column.isStruct c.keyword then none else flaw? c
  distinct := distinct
  tells parent _ := tells parent
  grounded := Subrelation.wf (fun {d c} h => Column.sizeOf_inner c d h) (measure sizeOf).wf

/-- The walk that finds the schema of columns. -/
def schemas (options : SchemaOptions) : SchemaWalk Column :=
  overColumns (fun c => failure? (Column.scalarType c.keyword)) true
    fun parent => !parent.any (Column.isEntry options)

/-- The walk that finds the record schema of columns. -/
def records : SchemaWalk Column :=
  overColumns (fun c => failure? (Column.avroScalar c.keyword)) false fun _ => true

/-- The walk that finds the message of columns. -/
def messages : SchemaWalk Column :=
  overColumns (fun c => if (Column.lookUp MessageField.typeOfKeyword c.keyword).isSome then none
    else some (Column.noMessageType c.name c.keyword)) false fun _ => true

/-! ## Failures of columns -/

/-- A failure seen from outside a column, with its name if the walk tells it. -/
def outward (tells : Option Column → Bool) (parent : Option Column) (c : Column)
    (e : ConversionError) : ConversionError :=
  if tells parent then e.withField c.name else e

theorem outward_of_tells {tells : Option Column → Bool} {parent : Option Column}
    (h : tells parent = true) (c : Column) :
    outward tells parent c = fun e => e.withField c.name := by
  funext e
  rw [outward, if_pos h]

theorem outward_of_silent {tells : Option Column → Bool} {parent : Option Column}
    (h : tells parent = false) (c : Column) : outward tells parent c = id := by
  funext e
  rw [outward, h]
  rfl

theorem isPlaced_outward {tells : Option Column → Bool} {parent : Option Column} {c : Column}
    {e cause : ConversionError} {steps : List Step} (hnames : ∀ n ∈ Step.toldNames steps, n ≠ "")
    (h : e.IsPlaced cause (Step.toldNames steps)) :
    (outward tells parent c e).IsPlaced cause
      (Step.toldNames (⟨c.name, tells parent⟩ :: steps)) := by
  rw [outward]
  split
  · rename_i htells
    rw [htells]
    exact h.withField hnames
  · rename_i htells
    rw [Bool.not_eq_true] at htells
    rw [htells]
    exact h

/-- What translates columns, and struct by struct what is inside them, follows the walk, if it names
no field by itself. -/
theorem followedBy_overColumns {flaw? : Column → Option ConversionError} {distinct : Bool}
    {tells : Option Column → Bool} {fails : Column → Option ConversionError}
    (hplaceless : ∀ c cause, flaw? c = some cause → cause.Placeless)
    (hflaw : ∀ c, Column.isStruct c.keyword = false → fails c = flaw? c)
    (hinner : ∀ c, Column.isStruct c.keyword = true → fails c =
      (overColumns flaw? distinct tells).failureIn?
        (fun parent d => (fails d).map (outward tells parent d)) (some c) c.inner) :
    (overColumns flaw? distinct tells).FollowedBy
      (fun parent c => (fails c).map (outward tells parent c)) (outward tells) where
  flaw parent c cause h := by
    simp only [overColumns] at h
    split at h
    · exact absurd h (by simp)
    · rename_i hstruct
      have hcause : cause.IsPlaced cause (Step.toldNames []) :=
        ⟨cause.message, by rw [show (ConversionError.dotted? (Step.toldNames []) = cause.field) from
          (hplaceless c cause h).symm]⟩
      refine ⟨outward tells parent c cause, ?_, isPlaced_outward (by simp [Step.toldNames]) hcause⟩
      rw [hflaw c (by simpa using hstruct), h]
      rfl
  inside parent c h := by
    simp only [overColumns] at h
    by_cases hstruct : Column.isStruct c.keyword = true
    · rw [hinner c hstruct]
      rfl
    · rw [if_neg hstruct] at h
      have hnil : c.inner = [] := by rw [Column.inner, if_neg hstruct]
      rw [hflaw c (by simpa using hstruct), h,
        show (overColumns flaw? distinct tells).inner c = [] from hnil, failureIn?_nil]
  seen parent c e cause steps _ hnames h := isPlaced_outward hnames h

end SchemaWalk

/-! ## Schemas of columns -/

namespace Column

variable {options : SchemaOptions} {columns : List Column}

theorem failure?_toFields (options : SchemaOptions) (columns : List Column) :
    failure? (toFields options columns) = columns.findSome? fun c =>
      (failure? (baseType options c)).map fun e => e.withField c.name := by
  simp only [← failure?_mapError]
  exact failure?_eq_findSome? (toFields options) rfl (fun _ _ => rfl) columns

/-- Fields of columns fail at one of them, or for a name that they repeat. -/
theorem failure?_create_toFields (options : SchemaOptions) (columns : List Column) :
    failure? (toFields options columns >>= Schema.create) =
      (columns.findSome? fun c => (failure? (baseType options c)).map fun e =>
        e.withField c.name).or
      ((Schema.firstRepeatedName? [] (columns.map Column.name)).map Schema.repeatedName) := by
  rw [← failure?_toFields]
  cases hfields : toFields options columns with
  | error e => rfl
  | ok fields =>
    rw [← names_of_toFields hfields]
    exact Schema.failure?_create fields

/-- A struct that is not taken for a map is a row. -/
theorem baseType_of_isRow {c : Column} (hstruct : isStruct c.keyword = true)
    (hentry : c.isEntry options = false) :
    baseType options c = (toFields options c.inner >>= Schema.create).map .row := by
  have hmap : (toFields options c.inner >>= Schema.create).map FieldType.row = (do
      let fields ← toFields options c.inner
      let fields ← Schema.create fields
      pure (.row fields)) := by
    cases toFields options c.inner <;> rfl
  rw [hmap, inner, if_pos hstruct]
  rw [isEntry, inner, if_pos hstruct] at hentry
  match c with
  | ⟨name, keyword, mode, none, description⟩ =>
    rw [baseType.eq_def]
    simp only [hstruct, if_true]
    rfl
  | ⟨name, keyword, mode, some [key, value], description⟩ =>
    have hneither : ¬ (options.inferMaps = true ∧ key.name = MapEntry.keyName ∧
        value.name = MapEntry.valueName) := by
      rintro ⟨hinfer, hkey, hvalue⟩
      simp [hinfer, hkey, hvalue, parts] at hentry
    rw [baseType, if_pos hstruct, if_neg hneither]
    rfl
  | ⟨name, keyword, mode, some [], description⟩ | ⟨name, keyword, mode, some [_], description⟩
  | ⟨name, keyword, mode, some (_ :: _ :: _ :: _), description⟩ =>
    rw [baseType.eq_def]
    simp only [hstruct, if_true]
    rfl

/-- A struct that is taken for a map has a key and a value. -/
theorem baseType_of_isEntry {c : Column} (hstruct : isStruct c.keyword = true)
    (hentry : c.isEntry options = true) :
    ∃ key value, c.inner = [key, value] ∧ key.name = MapEntry.keyName ∧
      value.name = MapEntry.valueName ∧ baseType options c = (do
        let keyType ← baseType options key
        let valueType ← baseType options value
        pure (.map keyType valueType false)) := by
  rw [isEntry, inner, if_pos hstruct] at hentry
  simp only [Bool.and_eq_true, beq_iff_eq] at hentry
  obtain ⟨hinfer, hnames⟩ := hentry
  obtain ⟨key, rest, hfields, hkey, hrest⟩ := List.map_eq_cons_iff.mp hnames
  obtain ⟨value, _, rfl, hvalue, hnil⟩ := List.map_eq_cons_iff.mp hrest
  obtain rfl := List.map_eq_nil_iff.mp hnil
  refine ⟨key, value, by rw [inner, if_pos hstruct, hfields], hkey, hvalue, ?_⟩
  obtain ⟨name, keyword, mode, fields, description⟩ := c
  cases fields with
  | none => exact absurd hfields (by simp [parts])
  | some columns =>
    obtain rfl : columns = [key, value] := hfields
    rw [baseType, if_pos hstruct, if_pos ⟨hinfer, hkey, hvalue⟩]

end Column

namespace SchemaWalk

/-- The failures of columns as their schema is found. -/
def schemaFailure (options : SchemaOptions) (parent : Option Column) (c : Column) :
    Option ConversionError :=
  (failure? (c.baseType options)).map
    (outward (fun parent => !parent.any (Column.isEntry options)) parent c)

theorem failureIn?_schemas (options : SchemaOptions) (parent : Option Column)
    (hparent : parent.any (Column.isEntry options) = false) (columns : List Column) :
    (schemas options).failureIn? (schemaFailure options) parent columns =
      failure? (Column.toFields options columns >>= Schema.create) := by
  have hfails : schemaFailure options parent = fun c =>
      (failure? (c.baseType options)).map fun e => e.withField c.name := by
    funext c
    rw [schemaFailure, outward_of_tells (by simp [hparent])]
  rw [Column.failure?_create_toFields, failureIn?, hfails]
  rfl

theorem followedBy_schemas (options : SchemaOptions) :
    (schemas options).FollowedBy (schemaFailure options)
      (outward fun parent => !parent.any (Column.isEntry options)) := by
  refine followedBy_overColumns ?_ ?_ ?_
  · intro c cause h
    rw [Column.scalarType] at h
    split at h
    · exact absurd h (by simp)
    · obtain rfl := Option.some.inj h
      rfl
  · exact fun c hstruct => congrArg failure? (Column.baseType_scalar hstruct)
  · intro c hstruct
    change failure? (c.baseType options) =
      (schemas options).failureIn? (schemaFailure options) (some c) c.inner
    cases hentry : c.isEntry options with
    | false =>
      rw [failureIn?_schemas options (some c) hentry, Column.baseType_of_isRow hstruct hentry,
        failure?_map]
    | true =>
      obtain ⟨key, value, hinner, hkey, hvalue, hbase⟩ := Column.baseType_of_isEntry hstruct hentry
      have hnames : (schemas options).repeated? [key, value] = none := by
        simp [repeated?, schemas, overColumns, hkey, hvalue, Schema.firstRepeatedName?,
          MapEntry.keyName, MapEntry.valueName]
      have hsilent (d : Column) : schemaFailure options (some c) d = failure? (d.baseType options) := by
        rw [schemaFailure, outward_of_silent (by simp [hentry]), Option.map_id]
        rfl
      rw [hbase, hinner, failureIn?, hnames, List.findSome?_cons, List.findSome?_cons, hsilent,
        hsilent]
      cases key.baseType options with
      | error e => rfl
      | ok keyType => cases value.baseType options <;> rfl

/-! ## Record schemas and messages -/

/-- The failures of columns as their record schema is found. -/
def recordFailure (space : Option String) (parent : Option Column) (c : Column) :
    Option ConversionError :=
  (failure? (c.avroType space)).map (outward (fun _ => true) parent c)

theorem failureIn?_records (space : Option String) (parent : Option Column)
    (columns : List Column) : records.failureIn? (recordFailure space) parent columns =
      failure? (Column.avroFields space columns) := by
  have hdistinct : records.repeated? columns = none := rfl
  have hfails : recordFailure space parent =
      fun c => failure? ((c.avroType space).mapError fun e => e.withField c.name) := by
    funext c
    rw [recordFailure, outward_of_tells rfl, failure?_mapError]
  rw [failureIn?, hdistinct, Option.map_none, Option.or_none, hfails]
  exact (failure?_eq_findSome? (Column.avroFields space) rfl (fun _ _ => rfl) columns).symm

theorem followedBy_records (space : Option String) :
    records.FollowedBy (recordFailure space) (outward fun _ => true) := by
  refine followedBy_overColumns ?_ ?_ ?_
  · intro c cause h
    rw [Column.avroScalar] at h
    split at h
    · exact absurd h (by simp)
    · obtain rfl := Option.some.inj h
      rfl
  · intro c hstruct
    rw [Column.avroType_eq, hstruct]
    rfl
  · intro c hstruct
    change failure? (c.avroType space) =
      records.failureIn? (recordFailure space) (some c) c.inner
    rw [failureIn?_records, Column.inner, if_pos hstruct, Column.avroType_eq, if_pos hstruct]
    exact failure?_bind_pure (Column.avroFields space c.parts) _

/-- The failures of columns as their messages are found. -/
def messageFailure (_parent : Option Column) (c : Column) : Option ConversionError :=
  failure? c.messageField

theorem failureIn?_messages (parent : Option Column) (columns : List Column) :
    messages.failureIn? messageFailure parent columns =
      failure? (Column.messageFields columns) := by
  have hdistinct : messages.repeated? columns = none := rfl
  rw [failureIn?, hdistinct, Option.map_none, Option.or_none]
  exact (failure?_eq_findSome? Column.messageFields rfl (fun _ _ => rfl) columns).symm

theorem messageFailure_of_none {parent : Option Column} {c : Column}
    (h : Column.lookUp MessageField.typeOfKeyword c.keyword = none) :
    messageFailure parent c = some (Column.noMessageType c.name c.keyword) := by
  rw [messageFailure, Column.messageField_eq, h]
  rfl

/-- A column with a message type fails as the columns inside its struct do. -/
theorem messageFailure_of_some {parent : Option Column} {c : Column} {type : String}
    (h : Column.lookUp MessageField.typeOfKeyword c.keyword = some type) :
    messageFailure parent c =
      (failure? (Column.messageFields c.inner)).map fun e => e.withField c.name := by
  have hstruct := Column.isStruct_iff h
  rw [messageFailure, Column.messageField_eq, h, Column.inner]
  simp only [failure?_map, Column.messageOf]
  by_cases htype : type = "MESSAGE"
  · rw [if_pos htype, if_pos (hstruct.mpr htype), failure?_map, failure?_mapError]
  · rw [if_neg htype, if_neg fun hc => htype (hstruct.mp hc)]
    rfl

theorem followedBy_messages : messages.FollowedBy messageFailure (outward fun _ => true) where
  flaw parent c cause h := by
    simp only [messages, overColumns] at h
    split at h
    · exact absurd h (by simp)
    · split at h
      · exact absurd h (by simp)
      · rename_i hnone
        obtain rfl := Option.some.inj h
        refine ⟨Column.noMessageType c.name c.keyword, messageFailure_of_none (by simpa using hnone),
          (Column.noMessageType c.name c.keyword).message, ?_⟩
        simp [Step.toldNames, ConversionError.dotted?, Column.noMessageType, messages, overColumns]
  inside parent c h := by
    change _ = (messages.failureIn? messageFailure (some c) c.inner).map _
    rw [failureIn?_messages, outward_of_tells rfl]
    cases htype : Column.lookUp MessageField.typeOfKeyword c.keyword with
    | some type => exact messageFailure_of_some htype
    | none =>
      have hstruct : Column.isStruct c.keyword = false := by
        rw [← Bool.not_eq_true]
        intro hc
        simp only [Column.isStruct, Bool.or_eq_true, beq_iff_eq] at hc
        rcases hc with hc | hc <;> exact absurd (hc ▸ htype) (by decide)
      simp [messages, overColumns, hstruct, htype] at h
  seen parent c e cause steps _ hnames h := isPlaced_outward hnames h

end SchemaWalk

end WarehouseRows
