import WarehouseRows.Proofs.NormalForm
import WarehouseRows.Proofs.SchemaReading

/-!
# The document of a schema that was read

A document may leave out what the document of a schema says, and say what that leaves out. Written
again, a schema has the document from which it was read, except that a field tells whether it is
nullable, and flags of items that are off and empty descriptions are gone. The order of members does
not count.

With the grammar this settles what reading does to any document: one of the wrong shape has issues,
one that repeats a name in a list of fields is refused, and all others give a schema.

## Main definitions

* `Json.SameAs`: the same value, up to the order of members.
* `Json.completed`: the document with what it leaves out filled in, and what goes taken out.
* `Json.IsProper`: values whose objects have each name once.
-/

namespace WarehouseRows

namespace Json

/-! ## Values up to the order of members -/

mutual

/-- Whether two values are the same, up to the order of the members of objects. -/
def SameAs (a b : Json) : Prop :=
  match a with
  | .array xs => ∃ ys, b = .array ys ∧ SameItems xs ys
  | .object ms =>
    ∃ ns : Members Json, b = .object ns ∧ (∀ n ∈ ns.names, n ∈ Members.names ms) ∧
      SameMembers ms ns
  | a => b = a

/-- Whether the items of two lists are the same, one by one. -/
def SameItems (xs ys : List Json) : Prop :=
  match xs, ys with
  | [], [] => True
  | x :: xs, y :: ys => SameAs x y ∧ SameItems xs ys
  | _, _ => False

/-- Whether each member has the same value among other members. -/
def SameMembers (ms : List (String × Json)) (ns : Members Json) : Prop :=
  match ms with
  | [] => True
  | (name, value) :: rest =>
    (∃ other, ns.get? name = some other ∧ SameAs value other) ∧ SameMembers rest ns

end

theorem sameMembers_iff {ms : List (String × Json)} {ns : Members Json} :
    SameMembers ms ns ↔ ∀ m ∈ ms, ∃ other, ns.get? m.1 = some other ∧ m.2.SameAs other := by
  induction ms with
  | nil => simp [SameMembers]
  | cons m ms ih =>
    obtain ⟨name, value⟩ := m
    rw [SameMembers, ih, List.forall_mem_cons]

/-! ## Completed documents -/

/-- Whether a member says nothing: the flag of an item that is off, or a description that is
empty. -/
def isIdle (name : String) : Json → Bool
  | .bool b => !b && (name == "elementNullable" || name == "valueNullable")
  | .string s => s.isEmpty && name == "description"
  | _ => false

/-- The flag that is filled in where a field has none; only fields have a name. -/
def missingFlag (members : Members Json) : Members Json :=
  if members.contains "name" && !members.contains "nullable" then [("nullable", .bool false)]
  else []

mutual

/-- The document with the missing flags of fields filled in and idle members taken out, at every
depth. -/
def completed : Json → Json
  | .array items => .array (completedItems items)
  | .object members => .object (completedMembers members ++ missingFlag members)
  | j => j

/-- The items of an array, completed. -/
def completedItems : List Json → List Json
  | [] => []
  | item :: rest => completed item :: completedItems rest

/-- The members of an object that are not idle, completed. -/
def completedMembers : List (String × Json) → List (String × Json)
  | [] => []
  | (name, value) :: rest =>
    if isIdle name value then completedMembers rest
    else (name, completed value) :: completedMembers rest

end

theorem sameItems_texts (texts : List String) :
    SameItems (texts.map .string) (completedItems (texts.map .string)) := by
  induction texts with
  | nil => exact trivial
  | cons text texts ih => exact ⟨rfl, ih⟩

/-! ## Objects with each name once -/

mutual

/-- Whether every object in a value has each name once. -/
def IsProper (j : Json) : Prop :=
  match j with
  | .array items => AllProper items
  | .object members => (Members.names members).Nodup ∧ MembersProper members
  | _ => True

/-- Whether the items of a list are such values. -/
def AllProper (items : List Json) : Prop :=
  match items with
  | [] => True
  | item :: rest => IsProper item ∧ AllProper rest

/-- Whether the values of members are such values. -/
def MembersProper (members : List (String × Json)) : Prop :=
  match members with
  | [] => True
  | (_, value) :: rest => IsProper value ∧ MembersProper rest

end

theorem membersProper_iff {members : List (String × Json)} :
    MembersProper members ↔ ∀ m ∈ members, m.2.IsProper := by
  induction members with
  | nil => simp [MembersProper]
  | cons m members ih =>
    obtain ⟨name, value⟩ := m
    simp [MembersProper, ih]

theorem isProper_of_get? {members : Members Json} {name : String} {value : Json}
    (h : MembersProper members) (hget : members.get? name = some value) : value.IsProper :=
  membersProper_iff.mp h _ (Keyword.mem_of_lookup hget)

/-! ## Members of completed documents -/

variable {members : Members Json} {name : String} {value : Json}

theorem get?_completedMembers (h : members.names.Nodup) (name : String) :
    Members.get? (completedMembers members) name =
      (members.get? name).bind fun v => if isIdle name v then none else some v.completed := by
  induction members with
  | nil => rfl
  | cons m members ih =>
    obtain ⟨n, v⟩ := m
    obtain ⟨hnew, hrest⟩ := List.nodup_cons.mp h
    have ih := ih hrest
    rw [completedMembers, Members.get?_cons]
    by_cases hname : name = n
    · subst hname
      have hnone : Members.get? (completedMembers members) name = none := by
        rw [ih, Members.get?_eq_none hnew]
        rfl
      by_cases hidle : isIdle name v = true
      · simp [hidle, hnone]
      · simp [hidle, Members.get?_cons]
    · by_cases hidle : isIdle n v = true
      · simp [hidle, hname, ih]
      · simp [hidle, hname, ih, Members.get?_cons]

theorem names_completedMembers_subset :
    ∀ n ∈ Members.names (completedMembers members), n ∈ members.names := by
  induction members with
  | nil => simp [completedMembers, Members.names]
  | cons m members ih =>
    obtain ⟨n, v⟩ := m
    rw [completedMembers]
    split
    · exact fun k hk => List.mem_cons_of_mem _ (ih k hk)
    · intro k hk
      rcases List.mem_cons.mp hk with rfl | hk
      · exact List.mem_cons_self
      · exact List.mem_cons_of_mem _ (ih k hk)

/-- Whether a member has the same value in a document once that is completed. -/
def IsKept (whole : Members Json) (m : String × Json) : Prop :=
  ∃ v, whole.get? m.1 = some v ∧ isIdle m.1 v = false ∧ m.2.SameAs v.completed

/-- An object is the same as a completed one if its members are kept there, and all others that may
be there are idle. -/
theorem sameAs_completedMembers {ms : List (String × Json)} {whole : Members Json}
    {known : List String} (hnodup : whole.names.Nodup) (hclosed : whole.Closed known)
    (hkept : ∀ m ∈ ms, IsKept whole m)
    (hidle : ∀ n ∈ known, n ∉ Members.names ms → ∀ v, whole.get? n = some v → isIdle n v = true) :
    (object ms).SameAs (.object (completedMembers whole)) := by
  refine ⟨_, rfl, ?_, sameMembers_iff.mpr ?_⟩
  · intro n hn
    refine Decidable.byContradiction fun hnew => ?_
    obtain ⟨v, hv⟩ := Members.exists_get? (names_completedMembers_subset n hn)
    have hgone : Members.get? (completedMembers whole) n = none := by
      have hknown := hclosed n (names_completedMembers_subset n hn)
      rw [get?_completedMembers hnodup, hv]
      simp [hidle n hknown hnew v hv]
    obtain ⟨w, hw⟩ := Members.exists_get? hn
    exact absurd (hgone.symm.trans hw) (by simp)
  · intro m hm
    obtain ⟨v, hget, hstays, hsame⟩ := hkept m hm
    refine ⟨v.completed, ?_, hsame⟩
    rw [get?_completedMembers hnodup, hget]
    simp [hstays]

/-- The same where one member, behind the others, is written only sometimes. -/
theorem sameAs_of_last {front back : List (String × Json)} {whole : Members Json} {last : String}
    (hnodup : whole.names.Nodup) (hclosed : whole.Closed (Members.names front ++ [last]))
    (hfront : ∀ m ∈ front, IsKept whole m) (hback : ∀ m ∈ back, IsKept whole m)
    (hlast : last ∉ Members.names back → ∀ v, whole.get? last = some v → isIdle last v = true) :
    (object (front ++ back)).SameAs (.object (completedMembers whole)) := by
  refine sameAs_completedMembers hnodup hclosed (List.forall_mem_append.mpr ⟨hfront, hback⟩) ?_
  intro n hn hnew
  rw [Members.names, List.map_append, List.mem_append, not_or] at hnew
  rcases List.mem_append.mp hn with hn | hn
  · exact absurd hn hnew.1
  · obtain rfl := List.mem_singleton.mp hn
    exact hlast hnew.2

theorem isIdle_of_ne (hname : name ∉ ["elementNullable", "valueNullable", "description"]) :
    isIdle name value = false := by
  simp only [List.mem_cons, List.not_mem_nil, or_false, not_or] at hname
  obtain ⟨helement, hvalue, hdescription⟩ := hname
  cases value <;> simp [isIdle, helement, hvalue, hdescription]

theorem isKept_of_ne {whole : Members Json}
    (hname : name ∉ ["elementNullable", "valueNullable", "description"]) {other : Json}
    (hget : whole.get? name = some other) (hsame : value.SameAs other.completed) :
    IsKept whole (name, value) :=
  ⟨other, hget, isIdle_of_ne hname, hsame⟩

/-- Only a field has a name, so nothing is filled in elsewhere. -/
theorem completed_of_closed {known : List String} (hclosed : members.Closed known)
    (hknown : "name" ∉ known) : (object members).completed = .object (completedMembers members) := by
  have hname : Members.contains members "name" = false := by
    rw [← Bool.not_eq_true, Members.contains_iff]
    exact fun h => hknown (hclosed _ h)
  rw [completed, missingFlag, hname]
  simp

/-! ## The flag that is filled in -/

theorem completedMembers_append_missingFlag (members : Members Json) :
    completedMembers members ++ missingFlag members =
      completedMembers (members ++ missingFlag members) := by
  have happend (ms : Members Json) : completedMembers (ms ++ missingFlag members) =
      completedMembers ms ++ completedMembers (missingFlag members) := by
    induction ms with
    | nil => rfl
    | cons m ms ih =>
      obtain ⟨n, v⟩ := m
      rw [List.cons_append, completedMembers, completedMembers, ih]
      split <;> rfl
  have hflag : completedMembers (missingFlag members) = missingFlag members := by
    rw [missingFlag]
    split <;> rfl
  rw [happend, hflag]

theorem nodup_append_missingFlag (h : members.names.Nodup) :
    (Members.names (members ++ missingFlag members)).Nodup := by
  rw [missingFlag]
  split
  · rename_i hmissing
    have hnew : "nullable" ∉ Members.names members := by
      simp only [Bool.and_eq_true, Bool.not_eq_true', ← Bool.not_eq_true,
        Members.contains_iff] at hmissing
      exact hmissing.2
    rw [Members.names, List.map_append, List.nodup_append]
    refine ⟨h, by simp, ?_⟩
    rintro n hn _ hflag rfl
    obtain rfl := List.mem_singleton.mp hflag
    exact hnew hn
  · simpa using h

theorem closed_append_missingFlag {known : List String} (h : members.Closed known)
    (hflag : "nullable" ∈ known) : Members.Closed (members ++ missingFlag members) known := by
  intro n hn
  rw [Members.names, List.map_append] at hn
  rcases List.mem_append.mp hn with hn | hn
  · exact h n hn
  · rw [missingFlag] at hn
    split at hn
    · exact List.mem_singleton.mp hn ▸ hflag
    · exact absurd hn List.not_mem_nil

/-- Nothing but the flag is filled in. -/
theorem get?_append_missingFlag (hname : name ≠ "nullable") :
    Members.get? (members ++ missingFlag members) name = members.get? name := by
  have hnone : Members.get? (missingFlag members) name = none := by
    rw [missingFlag]
    split <;> simp [Members.get?, hname]
  rw [Members.get?_append, hnone, Option.or_none]

/-- A field has the flag then, and it is off where there was none. -/
theorem get?_nullable {b : Bool} (hname : "name" ∈ members.names)
    (hflag : Shape.flag "nullable" members = .valid b) :
    Members.get? (members ++ missingFlag members) "nullable" = some (.bool b) := by
  rw [Members.get?_append]
  obtain hget | ⟨hnone, rfl⟩ := Shape.flag_eq_valid.mp hflag
  · rw [hget]
    rfl
  · have hnew : Members.contains members "nullable" = false := by
      rw [← Bool.not_eq_true, Members.contains_iff]
      intro hin
      obtain ⟨v, hv⟩ := Members.exists_get? hin
      exact absurd (hnone.symm.trans hv) (by simp)
    rw [hnone, missingFlag, Members.contains_iff.mpr hname, hnew]
    rfl

end Json

namespace FieldType

open Json

variable {j : Json} {members : Members Json}

theorem isKept_flag {name : String} {b : Bool} (h : Shape.flag name members = .valid b) :
    ∀ m ∈ flag name b, IsKept members m := by
  cases b with
  | false => simp [flag]
  | true =>
    obtain hget | ⟨_, hfalse⟩ := Shape.flag_eq_valid.mp h
    · exact List.forall_mem_singleton.mpr ⟨_, hget, rfl, rfl⟩
    · exact absurd hfalse (by simp)

/-- A flag that is off is not written, and is idle where it is a flag of items. -/
theorem isIdle_flag {name : String} {b : Bool} (h : Shape.flag name members = .valid b)
    (hitems : name = "elementNullable" ∨ name = "valueNullable")
    (hnew : name ∉ Members.names (flag name b)) {v : Json} (hget : members.get? name = some v) :
    isIdle name v = true := by
  cases b with
  | true => exact absurd List.mem_cons_self hnew
  | false =>
    obtain hflag | ⟨hnone, _⟩ := Shape.flag_eq_valid.mp h
    · obtain rfl := Option.some.inj (hflag.symm.trans hget)
      rcases hitems with rfl | rfl <;> rfl
    · exact absurd (hnone.symm.trans hget) (by simp)

theorem isKept_labels {labels : Option (List String)}
    (h : Shape.member members "values" (Shape.optional strings) = .valid labels) :
    ∀ m ∈ Json.optional "values" (labels.map fun ls => .array (ls.map .string)),
      IsKept members m := by
  have hmap := Shape.optional_eq_valid.mp h
  cases labels with
  | none => simp [Json.optional]
  | some texts =>
    obtain ⟨v, hget, hv⟩ := Option.map_eq_some_iff.mp hmap
    obtain rfl := strings_eq_valid.mp hv
    refine List.forall_mem_singleton.mpr (isKept_of_ne (by decide) hget ?_)
    exact ⟨_, rfl, sameItems_texts texts⟩

theorem isIdle_labels {labels : Option (List String)}
    (h : Shape.member members "values" (Shape.optional strings) = .valid labels)
    (hnew : "values" ∉
      Members.names (Json.optional "values" (labels.map fun ls => .array (ls.map .string))))
    {v : Json} (hget : members.get? "values" = some v) : isIdle "values" v = true := by
  have hmap := Shape.optional_eq_valid.mp h
  cases labels with
  | none => simp [hget] at hmap
  | some texts => exact absurd List.mem_cons_self hnew

theorem present?_some (text : String) :
    ConversionError.present? (some text) = if text = "" then none else some text := by
  by_cases h : text = "" <;> simp [ConversionError.present?, h, Option.filter]

theorem isKept_description {whole : Members Json} {text : Option String}
    (h : (whole.get? "description").map Shape.string = text.map .valid) :
    ∀ m ∈ Json.optional "description" ((ConversionError.present? text).map .string),
      IsKept whole m := by
  cases text with
  | none => simp [Json.optional, ConversionError.present?]
  | some t =>
    obtain ⟨v, hget, hv⟩ := Option.map_eq_some_iff.mp h
    obtain rfl := Shape.string_eq_valid.mp hv
    rw [present?_some]
    split
    · simp [Json.optional]
    · rename_i hfilled
      exact List.forall_mem_singleton.mpr ⟨_, hget, by simp [isIdle, hfilled], rfl⟩

theorem isIdle_description {whole : Members Json} {text : Option String}
    (h : (whole.get? "description").map Shape.string = text.map .valid)
    (hnew : "description" ∉
      Members.names (Json.optional "description" ((ConversionError.present? text).map .string)))
    {v : Json} (hget : whole.get? "description" = some v) : isIdle "description" v = true := by
  cases text with
  | none => simp [hget] at h
  | some t =>
    rw [hget] at h
    obtain rfl := Shape.string_eq_valid.mp (Option.some.inj h)
    rw [present?_some] at hnew
    split at hnew
    · rename_i hempty
      simp [isIdle, hempty]
    · exact absurd List.mem_cons_self hnew

/-- Written again, a field that was read has the completed document if its type has. -/
theorem fieldDefinition_sameAs {f : Field} (h : fieldOfDefinition j = .valid f)
    (hproper : j.IsProper)
    (htype : ∀ {type}, ofDefinition type = .valid f.type → type.IsProper →
      f.type.toDefinition.SameAs type.completed) :
    (fieldDefinition f).SameAs j.completed := by
  obtain ⟨members, rfl, ⟨hname, _⟩, hmember, hflag, ⟨text, htext, hdescription⟩, hclosed⟩ :=
    fieldOfDefinition_eq_valid.mp h
  obtain ⟨type, hget, hread⟩ := memberType_eq_valid_iff.mp hmember
  have hnames : "name" ∈ Members.names members := List.mem_map_of_mem (Keyword.mem_of_lookup hname)
  have hsame := htype hread (isProper_of_get? hproper.2 hget)
  have hdescribed := Shape.optional_eq_valid.mp htext
  rw [← get?_append_missingFlag (by decide)] at hname hget hdescribed
  have hwhole := closed_append_missingFlag hclosed (by decide)
  have hpresent : ConversionError.present? f.description = ConversionError.present? text := by
    rw [hdescription, ConversionError.present?_present?]
  rw [completed, completedMembers_append_missingFlag, fieldDefinition, hpresent]
  refine sameAs_of_last (nodup_append_missingFlag hproper.1) hwhole ?_
    (isKept_description hdescribed) fun hnew _ => isIdle_description hdescribed hnew
  simp only [List.forall_mem_cons, List.not_mem_nil, false_implies, implies_true, and_true]
  have hoff : SameAs (.bool f.nullable) (completed (.bool f.nullable)) := rfl
  exact ⟨isKept_of_ne (by decide) hname rfl, isKept_of_ne (by decide) hget hsame,
    isKept_of_ne (by decide) (get?_nullable hnames hflag) hoff⟩

theorem fieldDefinitions_sameItems {items : List Json} {fields : List Field}
    (h : items.map fieldOfDefinition = fields.map .valid) (hproper : AllProper items)
    (htypes : ∀ f ∈ fields, ∀ {type}, ofDefinition type = .valid f.type → type.IsProper →
      f.type.toDefinition.SameAs type.completed) :
    SameItems (fieldDefinitions fields) (completedItems items) := by
  induction items generalizing fields with
  | nil =>
    obtain rfl := List.map_eq_nil_iff.mp h.symm
    exact trivial
  | cons item items ih =>
    cases fields with
    | nil => simp at h
    | cons f fields =>
      rw [List.map_cons, List.map_cons, List.cons.injEq] at h
      rw [fieldDefinitions_cons, completedItems]
      constructor
      · exact fieldDefinition_sameAs h.1 hproper.1 (htypes f List.mem_cons_self)
      · exact ih h.2 hproper.2 fun g hg => htypes g (List.mem_cons_of_mem _ hg)

/-- Written again, a type that was read has the completed document. -/
theorem toDefinition_sameAs {type : FieldType} (h : ofDefinition j = .valid type)
    (hproper : j.IsProper) : type.toDefinition.SameAs j.completed := by
  induction type generalizing j with
  | primitive kind =>
    obtain ⟨members, rfl, hkind, hclosed⟩ := tells_of_ofDefinition h
    rw [completed_of_closed hclosed (by decide), toDefinition]
    refine sameAs_completedMembers hproper.1 hclosed ?_ (by simp [Members.names])
    exact List.forall_mem_singleton.mpr (isKept_of_ne (by decide) hkind rfl)
  | array element elementNullable ih =>
    obtain ⟨members, rfl, hkind, helement, hflag, hclosed⟩ := tells_of_ofDefinition h
    obtain ⟨e, hget, he⟩ := memberType_eq_valid_iff.mp helement
    have hsame := ih he (isProper_of_get? hproper.2 hget)
    rw [completed_of_closed hclosed (by decide), toDefinition]
    refine sameAs_of_last hproper.1 hclosed ?_ (isKept_flag hflag)
      fun hnew _ => isIdle_flag hflag (Or.inl rfl) hnew
    simp only [List.forall_mem_cons, List.not_mem_nil, false_implies, implies_true, and_true]
    exact ⟨isKept_of_ne (by decide) hkind rfl, isKept_of_ne (by decide) hget hsame⟩
  | map key value valueNullable ihKey ihValue =>
    obtain ⟨members, rfl, hkind, hkey, hvalue, hflag, hclosed⟩ := tells_of_ofDefinition h
    obtain ⟨k, hgetKey, hk⟩ := memberType_eq_valid_iff.mp hkey
    obtain ⟨v, hgetValue, hv⟩ := memberType_eq_valid_iff.mp hvalue
    have hsameKey := ihKey hk (isProper_of_get? hproper.2 hgetKey)
    have hsameValue := ihValue hv (isProper_of_get? hproper.2 hgetValue)
    rw [completed_of_closed hclosed (by decide), toDefinition]
    refine sameAs_of_last hproper.1 hclosed ?_ (isKept_flag hflag)
      fun hnew _ => isIdle_flag hflag (Or.inr rfl) hnew
    simp only [List.forall_mem_cons, List.not_mem_nil, false_implies, implies_true, and_true]
    exact ⟨isKept_of_ne (by decide) hkind rfl, isKept_of_ne (by decide) hgetKey hsameKey,
      isKept_of_ne (by decide) hgetValue hsameValue⟩
  | row fields ih =>
    obtain ⟨members, rfl, hkind, hfields, hclosed⟩ := tells_of_ofDefinition h
    obtain ⟨items, hget, hitems⟩ := memberFields_eq_valid_iff.mp hfields
    have hlist : SameAs (.array (fieldDefinitions fields)) (completed (.array items)) :=
      ⟨_, rfl, fieldDefinitions_sameItems hitems (isProper_of_get? hproper.2 hget) ih⟩
    rw [completed_of_closed hclosed (by decide), toDefinition]
    refine sameAs_completedMembers hproper.1 hclosed ?_ (by simp [Members.names])
    simp only [List.forall_mem_cons, List.not_mem_nil, false_implies, implies_true, and_true]
    exact ⟨isKept_of_ne (by decide) hkind rfl, isKept_of_ne (by decide) hget hlist⟩
  | logical identifier base representation labels ih =>
    obtain ⟨members, rfl, hkind, hidentifier, hbase, hrepresentation, hlabels, hclosed⟩ :=
      tells_of_ofDefinition h
    obtain ⟨hgetIdentifier, _⟩ := Shape.filledMember_eq_valid.mp hidentifier
    obtain ⟨b, hget, hb⟩ := memberType_eq_valid_iff.mp hbase
    obtain ⟨r, hgetRepresentation, hr⟩ := Shape.required_eq_valid.mp hrepresentation
    obtain ⟨_, rfl⟩ := representationOf_eq_valid.mp hr
    have hsame := ih hb (isProper_of_get? hproper.2 hget)
    rw [completed_of_closed hclosed (by decide), toDefinition]
    refine sameAs_of_last hproper.1 hclosed ?_ (isKept_labels hlabels)
      fun hnew _ => isIdle_labels hlabels hnew
    simp only [List.forall_mem_cons, List.not_mem_nil, false_implies, implies_true, and_true]
    have hword : SameAs (.string representation.name) (completed (.string representation.name)) :=
      rfl
    exact ⟨isKept_of_ne (by decide) hkind rfl, isKept_of_ne (by decide) hgetIdentifier rfl,
      isKept_of_ne (by decide) hget hsame, isKept_of_ne (by decide) hgetRepresentation hword⟩
  | unknown kind =>
    obtain ⟨_, _, hunknown⟩ := tells_of_ofDefinition h
    exact absurd hunknown id

end FieldType

/-! ## What reading does to any document -/

namespace Schema

open Definition

/-- Written again, fields that were read have the completed document. -/
theorem toDefinition_sameAs_completed {j : Json} {fields : List Field}
    (h : checkDefinition j = .valid fields) (hproper : j.IsProper) :
    (toDefinition fields).SameAs j.completed := by
  obtain ⟨members, items, rfl, hget, hitems, hclosed⟩ := checkDefinition_eq_valid.mp h
  have hlist : Json.SameAs (.array (FieldType.fieldDefinitions fields)) (.completed (.array items)) :=
    ⟨_, rfl, FieldType.fieldDefinitions_sameItems hitems (Json.isProper_of_get? hproper.2 hget)
      fun _ _ _ htype => FieldType.toDefinition_sameAs htype⟩
  rw [Json.completed_of_closed hclosed (by decide), toDefinition]
  refine Json.sameAs_completedMembers hproper.1 hclosed ?_ (by simp [Members.names])
  exact List.forall_mem_singleton.mpr (Json.isKept_of_ne (by decide) hget hlist)

/-- A document gives a schema if and only if it has the shape of one and no list of fields in it
repeats a name; one that has not the shape has issues, and one that repeats a name is refused as a
mismatch. A schema that is read from a document has the document, with its missing flags filled in
and its idle members taken out. -/
theorem ofDefinition_trichotomy (j : Json) :
    ((∃ schema, ofDefinition j = .ok (.ok schema)) ↔ IsSound j) ∧
      ((∃ issues, ofDefinition j = .error issues) ↔ ¬ IsShaped j) ∧
      ((∃ e, ofDefinition j = .ok (.error e) ∧ e.code = .schemaMismatch) ↔
        IsShaped j ∧ ¬ IsSound j) ∧
      ∀ schema : Schema, ofDefinition j = .ok (.ok schema) → j.IsProper →
        schema.toDefinition.SameAs j.completed := by
  rw [isShaped_iff]
  cases hcheck : checkDefinition j with
  | flawed fatal issues =>
    have hread : ofDefinition j = .error issues := by
      rw [ofDefinition, hcheck]
      rfl
    have hunsound : ¬ IsSound j := by
      intro hsound
      obtain ⟨fields, hfields, _⟩ := exists_checkDefinition hsound
      exact absurd (hcheck.symm.trans hfields) (by simp)
    simp [hread, hunsound]
  | valid fields =>
    have hread : ofDefinition j = .ok (build fields) := by
      rw [ofDefinition, hcheck]
      rfl
    have hsound : IsSound j ↔ build fields = .ok fields := by
      rw [isSound_iff hcheck, build_eq_ok_iff]
      simp
    have hdocument (hproper : j.IsProper) := toDefinition_sameAs_completed hcheck hproper
    cases hbuild : build fields with
    | error e =>
      have hcode : e.code = .schemaMismatch := (refusesNames_build fields).error hbuild
      simp [hread, hsound, hbuild, hcode]
    | ok schema =>
      obtain ⟨rfl, _⟩ := build_eq_ok_iff.mp hbuild
      simpa [hread, hsound, hbuild] using hdocument

/-- A row whose field has no flag but an empty description, in a map whose values have a flag that
is off. -/
theorem ofDefinition_trichotomy_nested :
    let n : Json := .object [("name", .string "n"), ("type", .object [("kind", .string "int64")]),
      ("description", .string "")]
    let map : Json := .object [("kind", .string "map"), ("valueNullable", .bool false),
      ("keyType", .object [("kind", .string "string")]),
      ("valueType", .object [("kind", .string "row"), ("fields", .array [n])])]
    let j : Json := .object [("fields", .array [.object [("type", map), ("name", .string "m")]])]
    IsSound j ∧ j.IsProper ∧ ∃ schema : Schema, ofDefinition j = .ok (.ok schema) ∧
      schema.toDefinition.SameAs (.object [("fields", .array [.object [
        ("type", .object [("kind", .string "map"), ("keyType", .object [("kind", .string "string")]),
          ("valueType", .object [("kind", .string "row"), ("fields", .array [.object [
            ("name", .string "n"), ("type", .object [("kind", .string "int64")]),
            ("nullable", .bool false)]])])]),
        ("name", .string "m"), ("nullable", .bool false)]])]) := by
  intro n map j
  have hprimitive (kind : PrimitiveKind) :
      FieldType.ofDefinition (.object [("kind", .string kind.name)]) = .valid (.primitive kind) :=
    FieldType.ofDefinition_of_tells
      (show FieldType.Tells _ (.primitive kind) from ⟨rfl, by cases kind <;> decide⟩)
  have hn : FieldType.fieldOfDefinition n = .valid ⟨"n", .primitive .int64, false, none⟩ :=
    FieldType.fieldOfDefinition_eq_valid.mpr ⟨_, rfl, ⟨rfl, by decide⟩,
      FieldType.memberType_eq_valid rfl (hprimitive .int64), rfl, ⟨_, rfl, rfl⟩, by decide⟩
  have hrow : FieldType.ofDefinition (.object [("kind", .string "row"), ("fields", .array [n])]) =
      .valid (.row [⟨"n", .primitive .int64, false, none⟩]) :=
    FieldType.ofDefinition_of_tells
      ⟨rfl, FieldType.memberFields_eq_valid_iff.mpr ⟨[n], rfl, congrArg (fun f => [f]) hn⟩, by decide⟩
  have hmap : FieldType.ofDefinition map = .valid (.map (.primitive .string)
      (.row [⟨"n", .primitive .int64, false, none⟩]) false) :=
    FieldType.ofDefinition_of_tells
      ⟨rfl, FieldType.memberType_eq_valid rfl (hprimitive .string),
        FieldType.memberType_eq_valid rfl hrow, rfl, by decide⟩
  have hm : FieldType.fieldOfDefinition (.object [("type", map), ("name", .string "m")]) =
      .valid ⟨"m", .map (.primitive .string) (.row [⟨"n", .primitive .int64, false, none⟩]) false,
        false, none⟩ :=
    FieldType.fieldOfDefinition_eq_valid.mpr ⟨_, rfl, ⟨rfl, by decide⟩,
      FieldType.memberType_eq_valid rfl hmap, rfl, ⟨_, rfl, rfl⟩, by decide⟩
  have hcheck : checkDefinition j = .valid [⟨"m", .map (.primitive .string)
      (.row [⟨"n", .primitive .int64, false, none⟩]) false, false, none⟩] :=
    checkDefinition_eq_valid.mpr ⟨_, _, rfl, rfl, congrArg (fun f => [f]) hm, by decide⟩
  have hread : ofDefinition j = .ok (.ok [⟨"m", .map (.primitive .string)
      (.row [⟨"n", .primitive .int64, false, none⟩]) false, false, none⟩]) := by
    rw [ofDefinition, hcheck]
    rfl
  have hproper : j.IsProper := by
    simp [j, map, n, Json.IsProper, Json.AllProper, Json.MembersProper, Members.names]
  obtain ⟨hsound, _, _, hdocument⟩ := ofDefinition_trichotomy j
  exact ⟨hsound.mp ⟨_, hread⟩, hproper, _, hread, hdocument _ hread hproper⟩

end Schema

end WarehouseRows
