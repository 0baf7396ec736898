import WarehouseRows.Proofs.SchemaDocuments

/-!
# Which documents are schemas

The documents of schemas have a grammar of their own, which knows nothing of how they are read: a
rule for each kind of type, one for fields and one for the whole. Every rule names the members that
have to be there and those that may be, and no others are allowed. What is asked of the names in a
list of fields is left open. If nothing is asked, the grammar tells the documents whose shape is
right; if the names have to be distinct, it tells those that give a schema.

Names are checked in the types that were read. The check passes where the names in every row are
distinct, and a refusal is always a mismatch with the schema.

## Main definitions

* `Definition.IsType`, `Definition.IsField`, `Definition.IsSchema`: the grammar.
* `FieldType.NamesMeet`: what the grammar asks of names, asked of a type that was read.
-/

namespace WarehouseRows

/-! ## The grammar -/

namespace Json

/-- Whether a value is a truth value. -/
def IsBool (j : Json) : Prop :=
  ∃ b, j = .bool b

/-- Whether a value is a text. -/
def IsText (j : Json) : Prop :=
  ∃ s, j = .string s

/-- Whether a value is a list of texts. -/
def IsTextList (j : Json) : Prop :=
  ∃ texts : List String, j = .array (texts.map .string)

/-- The text that an object holds under `name`. -/
def tellsName? (j : Json) : Option String :=
  match j.member? "name" with
  | some (.string name) => some name
  | _ => none

end Json

namespace Members

/-- Whether the value of a name, if it has one, has a property. -/
def MayHold (members : Members Json) (name : String) (P : Json → Prop) : Prop :=
  ∀ j, members.get? name = some j → P j

/-- Whether there are no names but the known ones. -/
def Closed {α : Type} (members : Members α) (known : List String) : Prop :=
  ∀ n ∈ members.names, n ∈ known

instance {α : Type} (members : Members α) (known : List String) :
    Decidable (members.Closed known) :=
  inferInstanceAs (Decidable (∀ n ∈ members.names, n ∈ known))

end Members

namespace Definition

mutual

/-- Whether a document is one of a type, with `rule` for the names in each list of fields. -/
inductive IsType (rule : List String → Prop) : Json → Prop
  | primitive {members : Members Json} (kind : PrimitiveKind)
      (hkind : members.get? "kind" = some (.string kind.name))
      (hclosed : members.Closed ["kind"]) : IsType rule (.object members)
  | array {members : Members Json} {element : Json}
      (hkind : members.get? "kind" = some (.string "array"))
      (hget : members.get? "elementType" = some element) (helement : IsType rule element)
      (hflag : members.MayHold "elementNullable" Json.IsBool)
      (hclosed : members.Closed ["kind", "elementType", "elementNullable"]) :
      IsType rule (.object members)
  | map {members : Members Json} {key value : Json}
      (hkind : members.get? "kind" = some (.string "map"))
      (hgetKey : members.get? "keyType" = some key) (hkey : IsType rule key)
      (hgetValue : members.get? "valueType" = some value) (hvalue : IsType rule value)
      (hflag : members.MayHold "valueNullable" Json.IsBool)
      (hclosed : members.Closed ["kind", "keyType", "valueType", "valueNullable"]) :
      IsType rule (.object members)
  | row {members : Members Json} {items : List Json}
      (hkind : members.get? "kind" = some (.string "row"))
      (hget : members.get? "fields" = some (.array items))
      (hitems : ∀ item ∈ items, IsField rule item) (hnames : rule (items.filterMap Json.tellsName?))
      (hclosed : members.Closed ["kind", "fields"]) : IsType rule (.object members)
  | logical {members : Members Json} {identifier : String} {base : Json}
      {representation : Representation}
      (hkind : members.get? "kind" = some (.string "logical"))
      (hidentifier : members.get? "identifier" = some (.string identifier))
      (hfilled : identifier ≠ "")
      (hget : members.get? "baseType" = some base) (hbase : IsType rule base)
      (hrepresentation : members.get? "representation" = some (.string representation.name))
      (hknown : representation ∈ Representation.all)
      (hvalues : members.MayHold "values" Json.IsTextList)
      (hclosed :
        members.Closed ["kind", "identifier", "baseType", "representation", "values"]) :
      IsType rule (.object members)

/-- Whether a document is one of a field. -/
inductive IsField (rule : List String → Prop) : Json → Prop
  | mk {members : Members Json} {name : String} {type : Json}
      (hname : members.get? "name" = some (.string name)) (hfilled : name ≠ "")
      (hget : members.get? "type" = some type) (htype : IsType rule type)
      (hflag : members.MayHold "nullable" Json.IsBool)
      (hdescription : members.MayHold "description" Json.IsText)
      (hclosed : members.Closed ["name", "type", "nullable", "description"]) :
      IsField rule (.object members)

end

/-- Whether a document is one of a schema. -/
inductive IsSchema (rule : List String → Prop) : Json → Prop
  | mk {members : Members Json} {items : List Json}
      (hget : members.get? "fields" = some (.array items))
      (hitems : ∀ item ∈ items, IsField rule item) (hnames : rule (items.filterMap Json.tellsName?))
      (hclosed : members.Closed ["fields"]) : IsSchema rule (.object members)

/-- Whether a document has the shape of a schema. -/
def IsShaped (j : Json) : Prop :=
  IsSchema (fun _ => True) j

/-- Whether a document has the shape of a schema, with distinct names in every list of fields. -/
def IsSound (j : Json) : Prop :=
  IsSchema List.Nodup j

end Definition

/-! ## Names in types -/

/-- One check after another passes where both do. -/
theorem Outcome.bind_unit_eq_ok {ε α : Type} {x : Except ε Unit} {y : Except ε α} {a : α} :
    (x.bind fun _ => y) = .ok a ↔ x = .ok () ∧ y = .ok a := by
  rw [Outcome.bind_eq_ok]
  exact ⟨fun ⟨_, hx, hy⟩ => ⟨hx, hy⟩, fun ⟨hx, hy⟩ => ⟨(), hx, hy⟩⟩

namespace FieldType

variable {rule : List String → Prop}

mutual

/-- Whether the names in every row in a type meet a rule. -/
def NamesMeet (rule : List String → Prop) (type : FieldType) : Prop :=
  match type with
  | .primitive _ | .unknown _ => True
  | .array element _ => NamesMeet rule element
  | .map key value _ => NamesMeet rule key ∧ NamesMeet rule value
  | .row fields => rule (fields.map Named.name) ∧ AllNamesMeet rule fields
  | .logical _ base _ _ => NamesMeet rule base

/-- Whether they do so in the type of each field. -/
def AllNamesMeet (rule : List String → Prop) (fields : List Field) : Prop :=
  match fields with
  | [] => True
  | f :: rest => NamesMeet rule f.type ∧ AllNamesMeet rule rest

end

theorem allNamesMeet_iff {fields : List Field} :
    AllNamesMeet rule fields ↔ ∀ f ∈ fields, f.type.NamesMeet rule := by
  induction fields with
  | nil => simp [AllNamesMeet]
  | cons f fields ih => simp [AllNamesMeet, ih]

/-- Where nothing is asked of names, all types will do. -/
theorem namesMeet_true (type : FieldType) : type.NamesMeet fun _ => True := by
  induction type with
  | primitive kind | unknown kind => exact trivial
  | array element elementNullable ih => exact ih
  | map key value valueNullable hkey hvalue => exact ⟨hkey, hvalue⟩
  | row fields ih => exact ⟨trivial, allNamesMeet_iff.mpr ih⟩
  | logical identifier base representation labels ih => exact ih

theorem checkFieldNames_eq_ok_iff {fields : List Field}
    (h : ∀ f ∈ fields, checkNames f.type = .ok () ↔ f.type.NamesMeet List.Nodup) :
    checkFieldNames fields = .ok () ↔ AllNamesMeet List.Nodup fields := by
  induction fields with
  | nil => simp [checkFieldNames, AllNamesMeet]
  | cons f fields ih =>
    have hrest := ih fun g hg => h g (List.mem_cons_of_mem _ hg)
    rw [AllNamesMeet, ← h f List.mem_cons_self, ← hrest]
    exact Outcome.bind_unit_eq_ok

/-- The check of names passes where the names in every row are distinct. -/
theorem checkNames_eq_ok_iff (type : FieldType) :
    checkNames type = .ok () ↔ type.NamesMeet List.Nodup := by
  induction type with
  | primitive kind | unknown kind => simp [checkNames, NamesMeet]
  | array element elementNullable ih => exact ih
  | map key value valueNullable hkey hvalue =>
    rw [NamesMeet, ← hkey, ← hvalue]
    exact Outcome.bind_unit_eq_ok
  | row fields ih =>
    have hcreate : (Schema.create fields >>= fun _ => pure ()) = .ok () ↔
        (fields.map Named.name).Nodup := by
      have hnodup : (∃ schema, Schema.create fields = .ok schema) ↔
          (fields.map Named.name).Nodup := by
        simp only [Schema.create_eq_ok]
        simp
      rw [← hnodup]
      exact Outcome.bind_eq_ok.trans (by simp [pure, Except.pure])
    rw [NamesMeet, ← checkFieldNames_eq_ok_iff ih, ← hcreate, and_comm]
    exact Outcome.bind_unit_eq_ok
  | logical identifier base representation labels ih => exact ih

/-! ## The refusal of repeated names -/

/-- Whether an outcome, if it is a failure, is a mismatch with the schema. -/
abbrev RefusesNames {α : Type} (x : Except ConversionError α) : Prop :=
  Outcome.Ends (fun e => e.code = .schemaMismatch) (fun _ => True) x

theorem refusesNames_create (fields : List Field) : RefusesNames (Schema.create fields) := by
  rw [Schema.create]
  split
  · exact rfl
  · exact trivial

theorem refusesNames_checkFieldNames {fields : List Field}
    (h : ∀ f ∈ fields, RefusesNames (checkNames f.type)) : RefusesNames (checkFieldNames fields) := by
  induction fields with
  | nil => exact trivial
  | cons f fields ih =>
    refine (h f List.mem_cons_self).bind fun _ _ => ?_
    exact ih fun g hg => h g (List.mem_cons_of_mem _ hg)

theorem refusesNames_checkNames (type : FieldType) : RefusesNames (checkNames type) := by
  induction type with
  | primitive kind | unknown kind => exact trivial
  | array element elementNullable ih => exact ih
  | map key value valueNullable hkey hvalue => exact hkey.bind fun _ _ => hvalue
  | row fields ih =>
    refine (refusesNames_checkFieldNames ih).bind fun _ _ => ?_
    exact (refusesNames_create fields).bind fun _ _ => trivial
  | logical identifier base representation labels ih => exact ih

end FieldType

end WarehouseRows
