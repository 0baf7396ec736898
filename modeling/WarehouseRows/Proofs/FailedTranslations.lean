import WarehouseRows.Proofs.ColumnWalks

/-!
# What failed translations tell of the way

Four functions walk over a schema: two translate it from and to columns, one gives the record schema
of an export and one the descriptor of messages. Each fails at the first column that it cannot
translate. The last two tell the whole way to this column. The translation from columns leaves out
the key or the value of a map that it inferred, and the translation to columns leaves out everything
but the column itself.

## Main definitions

* `SchemaWalk.overFields`: the walk over fields.
* `Translation`: one of the four functions with its arguments.
* `Translation.FailsAt`: the way to the column at which it fails.
-/

namespace WarehouseRows

open Outcome

/-! ## The walk over fields -/

namespace Field

/-- The fields of the struct that stores a field. -/
def inner (f : Field) : List Field :=
  f.type.structFields

/-- What keeps a field from having a column, apart from the fields inside. -/
def flaw? (f : Field) : Option ConversionError :=
  if f.type.item.isArray then some (arrayOfArrays f.name f.type)
  else if f.type.item.isAtomic then failure? f.type.item.keyword
  else none

theorem sizeOf_of_mem_structFields {type : FieldType} {d : Field} (h : d ∈ type.structFields) :
    sizeOf d.type < sizeOf type := by
  induction type with
  | primitive | logical | unknown => exact absurd h List.not_mem_nil
  | array element elementNullable ih =>
    have hlt := ih (FieldType.mem_structFields_array h)
    simp
    omega
  | map key value valueNullable =>
    simp only [FieldType.structFields, List.mem_cons, List.not_mem_nil, or_false] at h
    rw [FieldType.map.sizeOf_spec]
    rcases h with rfl | rfl
    · dsimp only
      omega
    · dsimp only
      omega
  | row fields =>
    have hfield : sizeOf d.type < sizeOf d := by
      cases d
      simp
      omega
    have hfields := List.sizeOf_lt_of_mem (show d ∈ fields from h)
    simp
    omega

end Field

namespace SchemaWalk

/-- The walk over fields, whose failures tell the last name only. -/
def overFields : SchemaWalk Field where
  name := Named.name
  inner := Field.inner
  flaw? := Field.flaw?
  distinct := false
  tells _ steps := steps.isEmpty
  grounded := Subrelation.wf (fun h => Field.sizeOf_of_mem_structFields h)
    (measure fun f : Field => sizeOf f.type).wf

/-- The failures of fields as their columns are found. -/
def columnFailure (_parent : Option Field) (f : Field) : Option ConversionError :=
  failure? (FieldType.toColumn f.name f.nullable (ConversionError.present? f.description) f.type)

theorem failureIn?_overFields (parent : Option Field) (fields : List Field) :
    overFields.failureIn? columnFailure parent fields =
      failure? (FieldType.toColumns fields) := by
  have hdistinct : overFields.repeated? fields = none := rfl
  rw [failureIn?, hdistinct, Option.map_none, Option.or_none]
  exact (failure?_eq_findSome? FieldType.toColumns rfl (fun _ _ => rfl) fields).symm

theorem failure?_plainColumn (name : String) (type : FieldType) (mode : Option Column.Mode)
    (description : Option String) :
    failure? (Field.plainColumn name type mode description) =
      (failure? type.keyword).map fun e => e.withField name := by
  rw [Field.plainColumn]
  cases type.keyword <;> rfl

/-- A field of a plain type, or of an array of one, fails as the keyword of the type does. -/
theorem columnFailure_of_isAtomic {parent : Option Field} {f : Field}
    (h : f.type.item.isAtomic = true) :
    columnFailure parent f = (failure? f.type.item.keyword).map fun e => e.withField f.name := by
  obtain ⟨name, type, nullable, description⟩ := f
  rw [columnFailure]
  cases type with
  | primitive | logical | unknown => exact failure?_plainColumn ..
  | row | map => exact absurd h (by simp [FieldType.item, FieldType.isAtomic])
  | array element elementNullable =>
    cases element with
    | primitive | logical | unknown => exact failure?_plainColumn ..
    | row | map | array => exact absurd h (by simp [FieldType.item, FieldType.isAtomic])

theorem columnFailure_of_isArray {parent : Option Field} {f : Field}
    (h : f.type.item.isArray = true) :
    columnFailure parent f = some (Field.arrayOfArrays f.name f.type) := by
  obtain ⟨name, type, nullable, description⟩ := f
  cases type with
  | array element elementNullable =>
    cases element with
    | array => rfl
    | _ => exact absurd h (by simp [FieldType.item, FieldType.isArray])
  | _ => exact absurd h (by simp [FieldType.item, FieldType.isArray])

/-- A field that is stored as a struct fails as the fields inside do. -/
theorem columnFailure_of_struct {parent : Option Field} {f : Field}
    (hatomic : f.type.item.isAtomic = false) (harray : f.type.item.isArray = false) :
    columnFailure parent f = failure? (FieldType.toColumns f.inner) := by
  obtain ⟨name, type, nullable, description⟩ := f
  have hmap (key value : FieldType) (valueNullable : Bool) (mode : Option Column.Mode) :
      failure? (do
        let keyColumn ← FieldType.toColumn MapEntry.keyName false none key
        let valueColumn ← FieldType.toColumn MapEntry.valueName valueNullable none value
        pure (⟨name, some "STRUCT", mode, some [keyColumn, valueColumn],
          ConversionError.present? description⟩ : Column)) =
      failure? (FieldType.toColumns (FieldType.structFields (.map key value valueNullable))) := by
    simp only [FieldType.structFields, FieldType.toColumns]
    change _ = failure? (FieldType.toColumn MapEntry.keyName false none key >>= _)
    cases FieldType.toColumn MapEntry.keyName false none key with
    | error e => rfl
    | ok keyColumn =>
      change _ = failure? ((FieldType.toColumn MapEntry.valueName valueNullable none value >>= _) >>= _)
      cases FieldType.toColumn MapEntry.valueName valueNullable none value <;> rfl
  rw [columnFailure]
  cases type with
  | primitive | logical | unknown => exact absurd hatomic (by simp [FieldType.item, FieldType.isAtomic])
  | row fields => exact failure?_bind_pure (FieldType.toColumns fields) _
  | map key value valueNullable => exact hmap key value valueNullable _
  | array element elementNullable =>
    cases element with
    | primitive | logical | unknown =>
      exact absurd hatomic (by simp [FieldType.item, FieldType.isAtomic])
    | array => exact absurd harray (by simp [FieldType.item, FieldType.isArray])
    | row fields => exact failure?_bind_pure (FieldType.toColumns fields) _
    | map key value valueNullable => exact hmap key value valueNullable _

/-- A keyword is refused without a place. -/
theorem placeless_of_keyword {type : FieldType} {e : ConversionError}
    (h : type.keyword = .error e) : e.Placeless := by
  have hkind (kind : String) (type : FieldType) (h : type.keywordOfKind kind = .error e) :
      e.Placeless := by
    rw [FieldType.keywordOfKind] at h
    split at h
    · exact absurd h (by simp)
    · obtain rfl := Except.error.inj h
      rfl
  induction type with
  | primitive kind => exact hkind _ _ h
  | array element elementNullable => exact hkind _ _ h
  | row fields => exact hkind _ _ h
  | unknown kind => exact hkind _ _ h
  | map key value valueNullable =>
    obtain rfl := Except.error.inj h
    rfl
  | logical identifier base representation labels ih =>
    rw [FieldType.keyword] at h
    split at h
    · exact absurd h (by simp)
    · split at h
      · exact ih h
      · obtain rfl := Except.error.inj h
        rfl

theorem inner_of_isAtomic {f : Field} (h : f.type.item.isAtomic = true) : f.inner = [] := by
  obtain ⟨name, type, nullable, description⟩ := f
  cases type with
  | primitive | logical | unknown => rfl
  | row | map => exact absurd h (by simp [FieldType.item, FieldType.isAtomic])
  | array element elementNullable =>
    cases element with
    | primitive | logical | unknown => rfl
    | row | map | array => exact absurd h (by simp [FieldType.item, FieldType.isAtomic])

theorem followedBy_overFields : overFields.FollowedBy columnFailure fun _ _ e => e where
  flaw parent f cause h := by
    change Field.flaw? f = some cause at h
    change ∃ e, columnFailure parent f = some e ∧ e.IsPlaced cause [f.name]
    rw [Field.flaw?] at h
    split at h
    · rename_i harray
      obtain rfl := Option.some.inj h
      refine ⟨_, columnFailure_of_isArray harray,
        (Field.arrayOfArrays f.name f.type).message, ?_⟩
      rw [ConversionError.dotted?, if_neg (by simp), String.intercalate_singleton]
      rfl
    · split at h
      · rename_i hatomic
        have hplaceless := placeless_of_keyword (failure?_eq_some.mp h)
        refine ⟨cause.withField f.name, ?_, _, ConversionError.withField_of_placeless hplaceless _⟩
        rw [columnFailure_of_isAtomic hatomic, h]
        rfl
      · exact absurd h (by simp)
  inside parent f h := by
    change _ = Option.map _ (overFields.failureIn? columnFailure (some f) f.inner)
    rw [failureIn?_overFields, Option.map_id']
    change Field.flaw? f = none at h
    rw [Field.flaw?] at h
    split at h
    · exact absurd h (by simp)
    · rename_i harray
      split at h
      · rename_i hatomic
        rw [columnFailure_of_isAtomic hatomic, h, inner_of_isAtomic hatomic]
        rfl
      · rename_i hatomic
        exact columnFailure_of_struct (by simpa using hatomic) (by simpa using harray)
  seen parent f e cause steps hne _ h := by
    have htells : overFields.tells parent steps = false := by
      rwa [overFields, List.isEmpty_eq_false_iff]
    rw [htells]
    exact h

/-- Of the fields on the way, the walk over fields tells the last one only. -/
theorem told_iff_of_failsIn_overFields {parent : Option Field} {fields : List Field}
    {steps : List Step}
    {cause : ConversionError} (h : overFields.FailsIn parent fields steps cause) :
    (∀ step ∈ steps, step.told = true) ↔ steps.length = 1 := by
  cases h with
  | flaw => exact ⟨fun _ => rfl, fun _ => List.forall_mem_singleton.mpr rfl⟩
  | repeated => exact ⟨fun _ => rfl, fun _ => List.forall_mem_singleton.mpr rfl⟩
  | inside _ _ hinner =>
    obtain ⟨next, rest, rfl⟩ := List.exists_cons_of_ne_nil hinner.ne_nil
    constructor
    · intro htold
      exact absurd (htold _ List.mem_cons_self) (by simp [overFields])
    · intro hlength
      exact absurd hlength (by simp)

end SchemaWalk

/-! ## The four functions -/

/-- One of the functions that walk over a schema, with its arguments. -/
inductive Translation where
  /-- The schema of columns. -/
  | toSchema (options : SchemaOptions) (columns : TableSchema)
  /-- The columns of a schema. -/
  | toTable (schema : Schema)
  /-- The record schema of columns. -/
  | toAvro (name : String) (columns : TableSchema) (space doc : Option String)
  /-- The message descriptor of columns. -/
  | descriptor (columns : TableSchema)

namespace Translation

open SchemaWalk

/-- The failure of the function, if it fails. -/
def failure? : Translation → Option ConversionError
  | .toSchema options columns => Outcome.failure? (columns.toSchema options)
  | .toTable schema => Outcome.failure? schema.toTable
  | .toAvro name columns space doc => Outcome.failure? (columns.toAvro name space doc)
  | .descriptor columns => Outcome.failure? columns.descriptor

/-- Whether no column has the empty name. -/
def Named : Translation → Prop
  | .toSchema options columns => (schemas options).Named columns
  | .toTable schema => overFields.Named schema
  | .toAvro _ columns _ _ => records.Named columns
  | .descriptor columns => messages.Named columns

/-- The way to the first column that the function cannot translate, and what is wrong there. -/
def FailsAt : Translation → List Step → ConversionError → Prop
  | .toSchema options columns => (schemas options).FailsIn none columns
  | .toTable schema => overFields.FailsIn none schema
  | .toAvro _ columns _ _ => records.FailsIn none columns
  | .descriptor columns => messages.FailsIn none columns

/-- Whether a failure tells the whole way: the translation to columns does so if the column is not
inside another, the one from columns if no key or value of a map that is inferred is on the way. -/
def TellsAll : Translation → List Step → Prop
  | .toSchema options _, steps => options.inferMaps = true → ∀ step ∈ steps, step.told = true
  | .toTable _, steps => steps.length = 1
  | .toAvro .., _ => True
  | .descriptor _, _ => True

/-- Where a walk fails, so does the function that follows it, and nowhere else. -/
theorem failure?_eq (t : Translation) (hnames : t.Named) :
    ((∃ e, t.failure? = some e) ↔ ∃ steps cause, t.FailsAt steps cause) ∧
      ∀ steps cause, t.FailsAt steps cause →
        ∃ e, t.failure? = some e ∧ e.IsPlaced cause (Step.toldNames steps) := by
  cases t with
  | toSchema options columns =>
    have hfailure := failureIn?_schemas options none rfl columns
    rw [failure?, TableSchema.toSchema, ← hfailure]
    exact ⟨(followedBy_schemas options).failureIn?_ne_none_iff hnames,
      fun steps cause h => (followedBy_schemas options).exists_failureIn? hnames h⟩
  | toTable schema =>
    rw [failure?, Schema.toTable, ← failureIn?_overFields none]
    exact ⟨followedBy_overFields.failureIn?_ne_none_iff hnames,
      fun steps cause h => followedBy_overFields.exists_failureIn? hnames h⟩
  | toAvro name columns space doc =>
    have hfailure : Outcome.failure? (columns.toAvro name space doc) =
        Outcome.failure? (Column.avroFields space columns) :=
      failure?_bind_pure (Column.avroFields space columns) _
    rw [failure?, hfailure, ← failureIn?_records space none]
    exact ⟨(followedBy_records space).failureIn?_ne_none_iff hnames,
      fun steps cause h => (followedBy_records space).exists_failureIn? hnames h⟩
  | descriptor columns =>
    rw [failure?, TableSchema.descriptor, ← failureIn?_messages none]
    exact ⟨followedBy_messages.failureIn?_ne_none_iff hnames,
      fun steps cause h => followedBy_messages.exists_failureIn? hnames h⟩

theorem ne_nil_of_failsAt {t : Translation} {steps : List Step} {cause : ConversionError}
    (h : t.FailsAt steps cause) : steps ≠ [] := by
  cases t with
  | toSchema | toTable | toAvro | descriptor => exact FailsIn.ne_nil h

theorem tellsAll_iff {t : Translation} {steps : List Step} {cause : ConversionError}
    (h : t.FailsAt steps cause) : t.TellsAll steps ↔ ∀ step ∈ steps, step.told = true := by
  cases t with
  | toSchema options columns =>
    cases hinfer : options.inferMaps with
    | true => simp [TellsAll, hinfer]
    | false =>
      have htells : ∀ parent steps, (schemas options).tells parent steps = true := by
        intro parent steps
        have hentry (c : Column) : c.isEntry options = false := by
          rw [Column.isEntry, hinfer, Bool.false_and]
        cases parent <;> simp [schemas, overColumns, hentry]
      exact ⟨fun _ => FailsIn.told h htells, fun h _ => h⟩
  | toTable schema => exact (told_iff_of_failsIn_overFields h).symm
  | toAvro | descriptor => exact ⟨fun _ => FailsIn.told h fun _ _ => rfl, fun _ => trivial⟩

/-- The function fails if and only if there is a column that it cannot translate, and then as the
first of them says: with the names on the way there that the walk tells as the path. This path is the
whole way for record schemas and descriptors always, for schemas unless the key or the value of an
inferred map is on the way, and for columns of fields only if the field is not inside another. -/
theorem fails_iff (t : Translation) (hnames : t.Named) :
    ((∃ e, t.failure? = some e) ↔ ∃ steps cause, t.FailsAt steps cause) ∧
      ∀ steps cause, t.FailsAt steps cause →
        (∃ message, t.failure? = some { cause with
          message := message
          field := ConversionError.dotted? (Step.toldNames steps) }) ∧
        (ConversionError.dotted? (Step.toldNames steps) =
            some (".".intercalate (steps.map Step.name)) ↔ t.TellsAll steps) := by
  obtain ⟨hiff, hplaced⟩ := t.failure?_eq hnames
  refine ⟨hiff, fun steps cause h => ⟨?_, ?_⟩⟩
  · obtain ⟨e, hfailure, message, rfl⟩ := hplaced steps cause h
    exact ⟨message, hfailure⟩
  · rw [tellsAll_iff h]
    exact Step.dotted?_toldNames_eq_iff (ne_nil_of_failsAt h)

/-- An unknown keyword in a struct in a struct, behind a column that can be translated: the failure
tells all three names. -/
theorem fails_iff_nested :
    ∃ e, TableSchema.toAvro "t"
        [⟨"a", some "STRUCT", none, some [⟨"x", some "DATE", none, none, none⟩,
          ⟨"b", some "RECORD", none, some [⟨"c", some "GEOGRAPHY", none, none, none⟩], none⟩],
          none⟩] none none = .error e ∧
      e.field = some "a.b.c" := by
  let x : Column := ⟨"x", some "DATE", none, none, none⟩
  let c : Column := ⟨"c", some "GEOGRAPHY", none, none, none⟩
  let b : Column := ⟨"b", some "RECORD", none, some [c], none⟩
  let a : Column := ⟨"a", some "STRUCT", none, some [x, b], none⟩
  let t : Translation := .toAvro "t" [a] none none
  have hnames : t.Named := by
    simp [t, a, b, c, x, Named, named_cons, named_nil, records, overColumns, Column.inner,
      Column.parts, Column.isStruct]
  have hnone : ∀ d ∈ ([] : List Column), records.Passes d := fun d hd => absurd hd List.not_mem_nil
  have hx : ∀ d ∈ [x], records.Passes d := List.forall_mem_singleton.mpr (.mk rfl hnone rfl)
  have hc := @FailsIn.flaw _ records (some b) [] [] c _ hnone rfl
  have hb := @FailsIn.inside _ records (some a) [x] [] b _ _ hx rfl hc
  have ha : t.FailsAt _ _ := @FailsIn.inside _ records none [] [] a _ _ hnone rfl hb
  obtain ⟨⟨message, hfailure⟩, hpath⟩ := (t.fails_iff hnames).2 _ _ ha
  exact ⟨_, failure?_eq_some.mp hfailure, hpath.mpr trivial⟩

/-- A logical type without a keyword in a row, and a value without a type in a map that is inferred:
neither failure tells the way. -/
theorem failure?_lastName :
    (∃ e, Schema.toTable
        [⟨"a", .row [⟨"b", .custom "x" (.primitive .string), false, none⟩], false, none⟩] = .error e ∧
      e.field = some "b" ∧ e.field ≠ some "a.b") ∧
    ∃ e, TableSchema.toSchema { inferMaps := true }
        [⟨"m", some "STRUCT", some .repeated,
          some [⟨"key", some "STRING", some .required, none, none⟩,
            ⟨"value", some "GEOGRAPHY", none, none, none⟩], none⟩] = .error e ∧
      e.field = some "m" ∧ e.field ≠ some "m.value" := by
  constructor
  · exact ⟨_, rfl, rfl, by decide⟩
  · exact ⟨_, rfl, rfl, by decide⟩

end Translation

end WarehouseRows
