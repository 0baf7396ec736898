import WarehouseRows.Proofs.LeafFailures
import WarehouseRows.Proofs.ReachedPlaces
import WarehouseRows.Proofs.TableRows

/-!
# Where a conversion fails

A conversion fails at the first place that does not convert, and the failure tells the way there by
the names of the fields on it. Every enclosing row puts its field in front of the path and rewrites
the message. In the end the message names the path once, in front of what the innermost failure
says; this one names no field, so the path is just the way there.

## Main definitions

* `Converter.FailsAt`: the path from a place to the failure of its conversion.
* `FieldType.IsNamed`: types without an empty name.
* `Converter.Refuses`: the failure of a conversion of rows.
-/

namespace WarehouseRows

/-! ## Failures inside places -/

/-- A failure, seen from outside the fields with some names. -/
def Failure.under (names : List String) (f : Failure) : Failure :=
  names.foldr Failure.inField f

namespace Converter

/-- Whether something inside a place that its conversion comes to fails. -/
def FailsInside (c : Converter) (p : Place) : Prop :=
  ∃ names q f, c.Reaches p names q ∧ c.convert q = .error f

/-- The names of the fields on the way from a place to the failure of its conversion, and the
failure that stands at the end, which does not come from further inside. -/
inductive FailsAt (c : Converter) : Place → List String → Failure → Prop
  | own {p : Place} {f : Failure} (h : c.convert p = .error f) (hinside : ¬ c.FailsInside p) :
      FailsAt c p [] f
  | inside {p q : Place} {names path : List String} {f : Failure} (hreach : c.Reaches p names q)
      (h : FailsAt c q path f) : FailsAt c p (names ++ path) f

/-- What fails inside a place makes the place fail, under the name of the field that leads there. -/
theorem convert_of_reaches {c : Converter} {p q : Place} {names : List String} {f : Failure}
    (h : c.Reaches p names q) (hq : c.convert q = .error f) :
    c.convert p = .error (f.under names) := by
  cases h with
  | item hbefore =>
    rw [convert_list, Outcome.map_eq_error, Outcome.mapM_eq_error]
    exact ⟨_, _, _, rfl, hbefore, hq⟩
  | rawKey h hsplit =>
    exact read_map_eq_error.mpr ⟨_, _, _, _, rfl, h, Or.inr ⟨_, hsplit, Or.inl hq⟩⟩
  | rawValue h hsplit hkey hnew =>
    exact read_map_eq_error.mpr
      ⟨_, _, _, _, rfl, h, Or.inr ⟨_, hsplit, Or.inr ⟨_, hkey, Or.inr ⟨hnew, hq⟩⟩⟩⟩
  | key h => exact convert_map_eq_error.mpr ⟨_, _, _, rfl, h, Or.inl hq⟩
  | value h hkey => exact convert_map_eq_error.mpr ⟨_, _, _, rfl, h, Or.inr ⟨hkey, hq⟩⟩
  | field hopens h =>
    exact (convert_row_eq_error hopens).mpr (convertFields_eq_error.mpr ⟨_, _, f, h, hq, rfl⟩)
  | base hpresent =>
    change FieldType.readAvro _ _ _ _ = _
    rw [FieldType.readAvro, if_neg (by simp [hpresent])]
    exact hq

/-! ## Failures of a place's own -/

theorem failsInside_list {c : Converter} {element : FieldType} {elementNullable nullable : Bool}
    {items : List Value} {f : Failure}
    (h : c.convert ⟨.array element elementNullable, nullable, .ok (.list items)⟩ = .error f) :
    c.FailsInside ⟨.array element elementNullable, nullable, .ok (.list items)⟩ := by
  rw [convert_list, Outcome.map_eq_error, Outcome.mapM_eq_error] at h
  obtain ⟨before, raw, after, rfl, hbefore, h⟩ := h
  exact ⟨_, _, f, .item hbefore, h⟩

theorem failsInside_row {c : Converter} {fields : List Field} {nullable : Bool} {row : Value}
    {f : Failure} (hopens : c.Opens fields row)
    (h : c.convert ⟨.row fields, nullable, .ok row⟩ = .error f) :
    c.FailsInside ⟨.row fields, nullable, .ok row⟩ := by
  obtain ⟨name, p, g, hreach, hp, _⟩ :=
    convertFields_eq_error.mp ((convert_row_eq_error hopens).mp h)
  exact ⟨_, p, g, .field hopens hreach, hp⟩

theorem failsInside_map {key value : FieldType} {valueNullable nullable : Bool}
    {entries : List (Value × Value)} {f : Failure}
    (h : convert .writes ⟨.map key value valueNullable, nullable, .ok (.map entries)⟩ =
      .error f) :
    FailsInside .writes ⟨.map key value valueNullable, nullable, .ok (.map entries)⟩ := by
  obtain ⟨before, e, after, rfl, hbefore, hkey | ⟨hkey, hvalue⟩⟩ := convert_map_eq_error.mp h
  · exact ⟨_, _, f, .key hbefore, hkey⟩
  · exact ⟨_, _, f, .value hbefore hkey, hvalue⟩

/-- Of the entries of a map, those that are none and those that are there already are refused for
themselves. -/
theorem placeless_or_failsInside_map {reader : MapReader} {key value : FieldType}
    {valueNullable nullable : Bool} {items : List Value} {f : Failure}
    (h : convert (.reads reader) ⟨.map key value valueNullable, nullable, .ok (.list items)⟩ =
      .error f) :
    f.Placeless ∨ FailsInside (.reads reader)
      ⟨.map key value valueNullable, nullable, .ok (.list items)⟩ := by
  obtain ⟨before, raw, after, stored, rfl, hbefore, h⟩ := read_map_eq_error.mp h
  rcases h with hsplit | ⟨entry, hsplit, hkey | ⟨new, hkey, ⟨_, rfl⟩ | ⟨hnew, hvalue⟩⟩⟩
  · cases reader with
    | native options => exact Or.inl ((Avro.placeless_splitEntry _ raw).error hsplit)
    | cells => exact Or.inl ((Cell.placeless_splitEntry _ raw).error hsplit)
  · exact Or.inr ⟨_, _, f, .rawKey hbefore hsplit, hkey⟩
  · exact Or.inl (Value.placeless_duplicateKey _ new)
  · exact Or.inr ⟨_, _, f, .rawValue hbefore hsplit hkey hnew, hvalue⟩

theorem placeless_or_failsInside_native {options : ConversionOptions} {type : FieldType}
    {nullable : Bool} {value : Value} {f : Failure}
    (h : type.readAvro options nullable value = .error f) :
    f.Placeless ∨ FailsInside (.reads (.native options)) ⟨type, nullable, .ok value⟩ := by
  by_cases habsent : value.isAbsent = true
  · rw [FieldType.readAvro.eq_def, if_pos habsent] at h
    exact Or.inl ((Avro.placeless_readAbsent type nullable).error h)
  · cases type with
    | primitive kind =>
      rw [FieldType.readAvro, if_neg habsent] at h
      exact Or.inl ((Avro.placeless_readPrimitive kind options value).error h)
    | array element elementNullable =>
      cases value with
      | null | missing => exact absurd rfl habsent
      | list items => exact Or.inr (failsInside_list h)
      | _ =>
        obtain rfl := Except.error.inj h
        exact Or.inl rfl
    | map key valueType valueNullable =>
      cases value with
      | null | missing => exact absurd rfl habsent
      | list items => exact placeless_or_failsInside_map h
      | _ =>
        obtain rfl := Except.error.inj h
        exact Or.inl rfl
    | row fields =>
      by_cases hrecord : Avro.isRecord value = true
      · exact Or.inr (failsInside_row hrecord h)
      · rw [FieldType.readAvro, if_neg habsent, if_neg hrecord] at h
        obtain rfl := Except.error.inj h
        exact Or.inl rfl
    | logical identifier base representation labels =>
      rw [FieldType.readAvro, if_neg habsent] at h
      cases representation with
      | date => exact Or.inl ((Avro.placeless_readDate _ value).error h)
      | time => exact Or.inl ((Avro.placeless_readTime _ value).error h)
      | datetime => exact Or.inl ((Avro.placeless_readDateTime _ value).error h)
      | timeWithLocalTz => exact Or.inl ((Avro.placeless_readInstant _ options value).error h)
      | passThrough => exact Or.inr ⟨_, _, f, .base (by simpa using habsent), h⟩
      | enumeration | custom | unknown =>
        obtain rfl := Except.error.inj h
        exact Or.inl rfl
    | unknown kind =>
      rw [FieldType.readAvro, if_neg habsent] at h
      obtain rfl := Except.error.inj h
      exact Or.inl rfl

theorem placeless_or_failsInside_cells {type : FieldType} {nullable : Bool} {value : Value}
    {f : Failure} (h : type.parse nullable value = .error f) :
    f.Placeless ∨ FailsInside (.reads .cells) ⟨type, nullable, .ok value⟩ := by
  by_cases habsent : value.isAbsent = true
  · rw [FieldType.parse_absent type nullable habsent] at h
    exact Or.inl ((Cell.placeless_parseMissing type nullable).error h)
  · cases htext : Cell.scalarText? value with
    | some text =>
      rw [FieldType.parse_scalar type nullable (by simpa using habsent) htext] at h
      exact Or.inl ((Cell.placeless_parseText type nullable value text).error h)
    | none =>
      have hparts := h
      rw [FieldType.parse.eq_def, if_neg habsent] at hparts
      simp only [htext] at hparts
      cases type with
      | array element elementNullable =>
        cases value with
        | list items => exact Or.inr (failsInside_list h)
        | _ =>
          obtain rfl := Except.error.inj hparts
          exact Or.inl rfl
      | map key valueType valueNullable =>
        cases value with
        | list items => exact placeless_or_failsInside_map h
        | _ =>
          obtain rfl := Except.error.inj hparts
          exact Or.inl rfl
      | row fields =>
        by_cases hobject : value.isObject = true
        · exact Or.inr (failsInside_row hobject h)
        · simp only [if_neg hobject] at hparts
          obtain rfl := Except.error.inj hparts
          exact Or.inl rfl
      | primitive | logical | unknown =>
        obtain rfl := Except.error.inj hparts
        exact Or.inl rfl

theorem placeless_or_failsInside_writes {type : FieldType} {nullable : Bool} {value : Value}
    {f : Failure} (h : type.encode nullable value = .error f) :
    f.Placeless ∨ FailsInside .writes ⟨type, nullable, .ok value⟩ := by
  by_cases hnull : Cell.isNull value = true
  · rw [FieldType.encode.eq_def, if_pos hnull] at h
    exact Or.inl ((Cell.placeless_ofNull type nullable).error h)
  · have hparts := h
    rw [FieldType.encode.eq_def, if_neg hnull] at hparts
    cases type with
    | primitive kind => exact Or.inl ((Cell.placeless_ofPrimitive kind value).error hparts)
    | array element elementNullable =>
      cases value with
      | list items => exact Or.inr (failsInside_list h)
      | _ =>
        obtain rfl := Except.error.inj hparts
        exact Or.inl rfl
    | map key valueType valueNullable =>
      cases value with
      | map entries => exact Or.inr (failsInside_map h)
      | _ =>
        obtain rfl := Except.error.inj hparts
        exact Or.inl (Cell.placeless_noEntries _ _)
    | row fields =>
      cases value with
      | list items =>
        by_cases hwidth : items.length = fields.length
        · exact Or.inr (failsInside_row ⟨items, rfl, hwidth⟩ h)
        · simp only [if_neg hwidth] at hparts
          obtain rfl := Except.error.inj hparts
          exact Or.inl rfl
      | _ =>
        obtain rfl := Except.error.inj hparts
        exact Or.inl rfl
    | logical identifier base representation labels =>
      exact Or.inl ((Cell.placeless_ofLogical _ representation labels value).error hparts)
    | unknown kind =>
      obtain rfl := Except.error.inj hparts
      exact Or.inl rfl

/-- A conversion that fails names no field by itself: if the failure names one, it comes from
inside. -/
theorem placeless_or_failsInside {c : Converter} {p : Place} {f : Failure}
    (hfound : Outcome.Placeless p.found) (h : c.convert p = .error f) :
    f.Placeless ∨ c.FailsInside p := by
  obtain ⟨type, nullable, found⟩ := p
  rcases Outcome.bind_eq_error.mp h with hfound' | ⟨value, rfl, h⟩
  · exact Or.inl (hfound.error hfound')
  · match c with
    | .reads (.native options) => exact placeless_or_failsInside_native h
    | .reads .cells => exact placeless_or_failsInside_cells h
    | .writes => exact placeless_or_failsInside_writes h

/-! ## Paths -/

/-- The place of a field is of the type of the field, and looking for its value names no field. -/
theorem exists_field_of_reachesField {c : Converter} {fields : List Field} {row : Value}
    {name : String} {p : Place} (h : c.ReachesField fields row name p) :
    ∃ f ∈ fields, f.name = name ∧ f.type = p.type ∧ Outcome.Placeless p.found := by
  obtain ⟨before, after, hplaces, _⟩ := h
  have hmem : (name, p) ∈ c.places fields row := by
    rw [hplaces]
    exact List.mem_append_right _ List.mem_cons_self
  match c with
  | .reads _ =>
    obtain ⟨f, hf, heq⟩ := List.mem_map.mp hmem
    obtain ⟨rfl, rfl⟩ := Prod.mk.inj heq
    exact ⟨f, hf, rfl, rfl, row.placeless_fieldOf f.name⟩
  | .writes =>
    cases row with
    | list values =>
      obtain ⟨⟨f, v⟩, hf, heq⟩ := List.mem_map.mp hmem
      obtain ⟨rfl, rfl⟩ := Prod.mk.inj heq
      exact ⟨f, (List.of_mem_zip hf).1, rfl, rfl, trivial⟩
    | _ => exact absurd hmem List.not_mem_nil

theorem placeless_of_reaches {c : Converter} {p q : Place} {names : List String}
    (h : c.Reaches p names q) : Outcome.Placeless q.found := by
  cases h with
  | field _ h =>
    obtain ⟨_, _, _, _, hfound⟩ := exists_field_of_reachesField h
    exact hfound
  | _ => exact trivial

/-- A conversion only ever comes to parts of the type it started with. -/
theorem sizeOf_lt_of_reaches {c : Converter} {p q : Place} {names : List String}
    (h : c.Reaches p names q) : sizeOf q.type < sizeOf p.type := by
  cases h with
  | field _ h =>
    obtain ⟨f, hf, _, htype, _⟩ := exists_field_of_reachesField h
    have hfield := List.sizeOf_lt_of_mem hf
    have hpart : sizeOf f.type < sizeOf f := by
      cases f
      simp
      omega
    rw [← htype]
    simp
    omega
  | item =>
    simp only [FieldType.array.sizeOf_spec]
    omega
  | rawKey | rawValue | key | value =>
    simp only [FieldType.map.sizeOf_spec]
    omega
  | base =>
    simp only [FieldType.logical.sizeOf_spec]
    omega

/-- A failure inside is what its path and its end say. -/
theorem convert_of_failsAt {c : Converter} {p : Place} {path : List String} {f : Failure}
    (h : c.FailsAt p path f) : c.convert p = .error (f.under path) := by
  induction h with
  | own h _ => exact h
  | inside hreach _ ih =>
    rw [convert_of_reaches hreach ih, Failure.under, Failure.under, Failure.under,
      List.foldr_append]

/-- Every failure has a path and an end. -/
theorem exists_failsAt {c : Converter} {p : Place} {f : Failure} (h : c.convert p = .error f) :
    ∃ path cause, c.FailsAt p path cause := by
  by_cases hinside : c.FailsInside p
  · obtain ⟨names, q, g, hreach, hq⟩ := hinside
    have hsmaller := sizeOf_lt_of_reaches hreach
    obtain ⟨path, cause, hq⟩ := exists_failsAt hq
    exact ⟨names ++ path, cause, .inside hreach hq⟩
  · exact ⟨[], f, .own h hinside⟩
termination_by sizeOf p.type

/-- The failure at the end of a path names no field. -/
theorem placeless_of_failsAt {c : Converter} {p : Place} {path : List String} {f : Failure}
    (hfound : Outcome.Placeless p.found) (h : c.FailsAt p path f) : f.Placeless := by
  induction h with
  | own h hinside => exact (placeless_or_failsInside hfound h).resolve_right hinside
  | inside hreach _ ih => exact ih (placeless_of_reaches hreach)

end Converter

/-! ## Names -/

namespace FieldType

mutual

/-- Whether no field in a type has the empty name. -/
def IsNamed (type : FieldType) : Prop :=
  match type with
  | .primitive _ => True
  | .array element _ => IsNamed element
  | .map key value _ => IsNamed key ∧ IsNamed value
  | .row fields => AllNamed fields
  | .logical _ base _ _ => IsNamed base
  | .unknown _ => True

/-- Whether each field has a name, and such a type. -/
def AllNamed (fields : List Field) : Prop :=
  match fields with
  | [] => True
  | f :: rest => (f.name ≠ "" ∧ IsNamed f.type) ∧ AllNamed rest

end

theorem allNamed_iff {fields : List Field} :
    AllNamed fields ↔ ∀ f ∈ fields, f.name ≠ "" ∧ f.type.IsNamed := by
  induction fields with
  | nil => simp [AllNamed]
  | cons f fields ih => simp [AllNamed, ih]

end FieldType

namespace Converter

theorem isNamed_of_reachesField {c : Converter} {fields : List Field} {row : Value}
    {name : String} {p : Place} (hfields : FieldType.AllNamed fields)
    (h : c.ReachesField fields row name p) : name ≠ "" ∧ p.type.IsNamed := by
  obtain ⟨f, hf, rfl, htype, _⟩ := exists_field_of_reachesField h
  rw [← htype]
  exact FieldType.allNamed_iff.mp hfields f hf

theorem isNamed_of_reaches {c : Converter} {p q : Place} {names : List String}
    (h : c.Reaches p names q) (hp : p.type.IsNamed) :
    (∀ n ∈ names, n ≠ "") ∧ q.type.IsNamed := by
  cases h with
  | item _ => exact ⟨by simp, hp⟩
  | rawKey _ _ => exact ⟨by simp, hp.1⟩
  | rawValue _ _ _ _ => exact ⟨by simp, hp.2⟩
  | key _ => exact ⟨by simp, hp.1⟩
  | value _ _ => exact ⟨by simp, hp.2⟩
  | field _ h =>
    obtain ⟨hname, htype⟩ := isNamed_of_reachesField hp h
    exact ⟨List.forall_mem_singleton.mpr hname, htype⟩
  | base _ => exact ⟨by simp, hp⟩

theorem isNamed_of_failsAt {c : Converter} {p : Place} {path : List String} {f : Failure}
    (h : c.FailsAt p path f) (hp : p.type.IsNamed) : ∀ n ∈ path, n ≠ "" := by
  induction h with
  | own => simp
  | inside hreach _ ih =>
    obtain ⟨hnames, hq⟩ := isNamed_of_reaches hreach hp
    exact List.forall_mem_append.mpr ⟨hnames, ih hq⟩

end Converter

/-! ## Messages -/

namespace ConversionError

theorem dropLead_append (lead text : String) : dropLead lead (lead ++ text) = text := by
  have hlead : lead.toList.isPrefixOf (lead ++ text).toList = true := by
    rw [List.isPrefixOf_iff_prefix, String.toList_append]
    exact List.prefix_append _ _
  rw [dropLead, if_pos hlead, String.toList_append, ← String.length_toList, List.drop_left,
    String.ofList_toList]

/-- Under a name, a failure that names no field names this one. -/
theorem withField_of_placeless {e : ConversionError} (h : e.Placeless) (name : String) :
    e.withField name = { e with message := pathLead name ++ e.message, field := some name } := by
  have hfield : e.field = none := h
  rw [withField, hfield]
  rfl

/-- Under a name, a failure that names a path names the longer one, once. -/
theorem withField_of_path {e : ConversionError} {path text : String} (hpath : path ≠ "")
    (hfield : e.field = some path) (hmessage : e.message = pathLead path ++ text)
    (name : String) :
    e.withField name =
      { e with
        message := pathLead (name ++ "." ++ path) ++ text
        field := some (name ++ "." ++ path) } := by
  have hpresent : present? e.field = some path := by
    rw [hfield, present?, Option.filter_some, if_pos (by simpa using hpath)]
  rw [withField, hpresent]
  dsimp only
  rw [hmessage, dropLead_append]
  rfl

end ConversionError

namespace Failure

theorem message_toConversion (f : Failure) : f.toConversion.message = f.message := by
  cases f <;> rfl

/-- Seen from outside all fields on the way, a failure names the path once in front of its
message, and is the same apart from this. -/
theorem under_eq {f : Failure} (hf : f.Placeless) {name : String} {path : List String}
    (hnames : ∀ n ∈ name :: path, n ≠ "") :
    f.under (name :: path) = .conversion
      { f.toConversion with
        message := ConversionError.pathLead (".".intercalate (name :: path)) ++ f.message
        field := some (".".intercalate (name :: path)) } := by
  induction path generalizing name with
  | nil =>
    rw [String.intercalate_singleton, ← message_toConversion]
    exact congrArg Failure.conversion (ConversionError.withField_of_placeless hf name)
  | cons next path ih =>
    have htail : ∀ n ∈ next :: path, n ≠ "" := fun n hn => hnames n (List.mem_cons_of_mem name hn)
    have hinner := ih htail
    have hpath : ".".intercalate (next :: path) ≠ "" := by
      have hnext : next ≠ "" := hnames next (List.mem_cons_of_mem name List.mem_cons_self)
      cases path with
      | nil => simpa using hnext
      | cons _ _ => simp [hnext]
    have hstep : f.under (name :: next :: path) = (f.under (next :: path)).inField name := rfl
    rw [hstep, hinner, String.intercalate_cons_cons]
    exact congrArg Failure.conversion (ConversionError.withField_of_path hpath rfl rfl name)

end Failure

/-! ## Rows -/

namespace Converter

/-- Whether an input is one of a converter: the writer takes a row that is as wide as the schema,
a reader takes anything. -/
def Takes (c : Converter) (schema : Schema) (input : Value) : Prop :=
  match c with
  | .reads _ => True
  | .writes => ∃ row, input = .list row ∧ row.length = schema.length

/-- Whether a converter of rows fails. -/
def Refuses (c : Converter) (schema : Schema) (input : Value) (f : Failure) : Prop :=
  match c with
  | .reads (.native options) => Row.ofAvro options schema input = .error f
  | .reads .cells => Row.ofTableRow schema input = .error f
  | .writes => ∃ row, input = .list row ∧ Row.toTableRow row schema = .error f

theorem refuses_iff_convertFields {c : Converter} {schema : Schema} {input : Value} {f : Failure}
    (h : c.Takes schema input) :
    c.Refuses schema input f ↔ c.convertFields schema input = .error f := by
  match c with
  | .reads (.native options) => rw [convertFields_native]; rfl
  | .reads .cells => rw [convertFields_cells]; rfl
  | .writes =>
    obtain ⟨row, rfl, hwidth⟩ := h
    have hwritten : Row.toTableRow row schema =
        (FieldType.encodeFields schema row).map Value.ofAssignments := by
      rw [Row.toTableRow, if_pos hwidth]
      rfl
    have hrefuses :
        Refuses .writes schema (.list row) f ↔ Row.toTableRow row schema = .error f := by
      constructor
      · rintro ⟨_, heq, h⟩
        obtain rfl := Value.list.inj heq
        exact h
      · exact fun h => ⟨row, rfl, h⟩
    rw [hrefuses, hwritten, Outcome.map_eq_error, convertFields_writes hwidth, Outcome.map_eq_error]

/-- A converter of rows fails at the first field in the order of the schema whose value does not
convert, and there where the failure comes from, through any lists, maps and rows. The failure is
the one that stands there as a conversion error: it names the path of all fields on the way, and its
message does so once, in front of what it says there. -/
theorem refuses_iff {c : Converter} {schema : Schema} {input : Value} {f : Failure}
    (hnames : FieldType.AllNamed schema) (hinput : c.Takes schema input) :
    c.Refuses schema input f ↔ ∃ name p path cause,
      c.ReachesField schema input name p ∧ c.FailsAt p path cause ∧
        f = .conversion
          { cause.toConversion with
            message :=
              ConversionError.pathLead (".".intercalate (name :: path)) ++ cause.message
            field := some (".".intercalate (name :: path)) } := by
  have hclosed : ∀ name p path cause, c.ReachesField schema input name p →
      c.FailsAt p path cause → cause.under (name :: path) = .conversion
          { cause.toConversion with
            message :=
              ConversionError.pathLead (".".intercalate (name :: path)) ++ cause.message
            field := some (".".intercalate (name :: path)) } := by
    intro name p path cause hreach hp
    obtain ⟨_, _, _, _, hfound⟩ := exists_field_of_reachesField hreach
    obtain ⟨hname, htype⟩ := isNamed_of_reachesField hnames hreach
    exact Failure.under_eq (placeless_of_failsAt hfound hp)
      (List.forall_mem_cons.mpr ⟨hname, isNamed_of_failsAt hp htype⟩)
  rw [refuses_iff_convertFields hinput, convertFields_eq_error]
  constructor
  · rintro ⟨name, p, g, hreach, hg, rfl⟩
    obtain ⟨path, cause, hp⟩ := exists_failsAt hg
    obtain rfl : g = cause.under path := Except.error.inj (hg.symm.trans (convert_of_failsAt hp))
    exact ⟨name, p, path, cause, hreach, hp, hclosed name p path cause hreach hp⟩
  · rintro ⟨name, p, path, cause, hreach, hp, rfl⟩
    exact ⟨name, p, _, hreach, convert_of_failsAt hp, (hclosed name p path cause hreach hp).symm⟩

/-- A text in place of an integer, in the second of the rows that a field lists. -/
theorem refuses_iff_text :
    Row.ofAvro {} [⟨"id", .primitive .int64, false, none⟩,
        ⟨"xs", .array (.row [⟨"n", .primitive .int64, false, none⟩]) false, false, none⟩]
      (.record [("id", .integer 1),
        ("xs", .list [.record [("n", .integer 2)], .record [("n", .string "a")]])]) =
      .error (.conversion
        { code := .unsupportedConversion
          message := "Error converting field \"xs.n\": " ++
            "Does not support converting Avro value of type string to INT64"
          field := some "xs.n"
          fieldType := some "INT64"
          valueType := some "string" }) := by
  let c : Converter := .reads (.native {})
  let inner : Schema := [⟨"n", .primitive .int64, false, none⟩]
  let schema : Schema := [⟨"id", .primitive .int64, false, none⟩,
    ⟨"xs", .array (.row inner) false, false, none⟩]
  let record : Value := .record [("id", .integer 1),
    ("xs", .list [.record [("n", .integer 2)], .record [("n", .string "a")]])]
  have hnames : FieldType.AllNamed schema := by
    simp [schema, inner, FieldType.AllNamed, FieldType.IsNamed]
  have hreach : c.ReachesField schema record "xs" ⟨.array (.row inner) false, false,
      .ok (.list [.record [("n", .integer 2)], .record [("n", .string "a")]])⟩ := by
    refine ⟨[("id", ⟨.primitive .int64, false, .ok (.integer 1)⟩)], [], rfl, ?_⟩
    exact List.forall_mem_singleton.mpr ⟨.integer 1, rfl⟩
  have hbefore : ∀ raw ∈ [Value.record [("n", .integer 2)]],
      c.Converts ⟨.row inner, false, .ok (c.item (.row inner) raw)⟩ :=
    List.forall_mem_singleton.mpr ⟨.list [.integer 2], rfl⟩
  have hrow : c.Reaches
      ⟨.array (.row inner) false, false,
        .ok (.list [.record [("n", .integer 2)], .record [("n", .string "a")]])⟩ []
      ⟨.row inner, false, .ok (.record [("n", .string "a")])⟩ :=
    .item hbefore
  have hfield : c.Reaches ⟨.row inner, false, .ok (.record [("n", .string "a")])⟩ ["n"]
      ⟨.primitive .int64, false, .ok (.string "a")⟩ :=
    .field rfl ⟨[], [], rfl, by simp⟩
  have hown : FailsAt (.reads (.native {})) ⟨.primitive .int64, false, .ok (.string "a")⟩ []
      (Avro.unsupported (.primitive .int64) (.string "a")) := by
    refine .own rfl ?_
    rintro ⟨names, q, f, h, _⟩
    cases h
  exact (refuses_iff (c := c) hnames trivial).mpr
    ⟨"xs", _, ["n"], _, hreach, .inside hrow (.inside hfield hown), rfl⟩

end Converter

end WarehouseRows
