import WarehouseRows.Schema.Equality
import WarehouseRows.Proofs.Typing

/-!
# When schemas are the same

Structural equality has a rule for each kind of type, one for fields and one for lists of fields.
They know nothing of how schemas are compared. What makes two lists of labels equal is left open.

The comparison of schemas follows these rules, but takes the labels of an enumeration as one text,
with a NUL between labels. A NUL inside a label cannot be told from one between two, and no label at
all cannot be told from a single empty one. So what the comparison sees of labels are the parts
between NULs, and for these the rules and the comparison agree.

## Main definitions

* `FieldType.Matches`, `FieldType.FieldsMatch`: the rules.
* `Labels.parts`: what is compared of a list of labels.
* `Labels.IsPlain`: the lists of labels that are told apart.
-/

namespace WarehouseRows

/-! ## The rules -/

namespace FieldType

mutual

/-- Whether two types have the same structure, with `rule` for labels. Labels that are absent count
as none. -/
inductive Matches (rule : List String → List String → Prop) : FieldType → FieldType → Prop
  | primitive (kind : PrimitiveKind) : Matches rule (.primitive kind) (.primitive kind)
  | array {a b : FieldType} {elementNullable : Bool} (helement : Matches rule a b) :
      Matches rule (.array a elementNullable) (.array b elementNullable)
  | map {key key' value value' : FieldType} {valueNullable : Bool} (hkey : Matches rule key key')
      (hvalue : Matches rule value value') :
      Matches rule (.map key value valueNullable) (.map key' value' valueNullable)
  | row {as bs : List Field} (hfields : FieldsMatch rule as bs) : Matches rule (.row as) (.row bs)
  | logical {identifier : String} {base base' : FieldType}
      {representation representation' : Representation} {labels labels' : Option (List String)}
      (hrepresentation : representation.name = representation'.name)
      (hbase : Matches rule base base') (hlabels : rule (labels.getD []) (labels'.getD [])) :
      Matches rule (.logical identifier base representation labels)
        (.logical identifier base' representation' labels')
  | unknown (kind : String) : Matches rule (.unknown kind) (.unknown kind)

/-- Whether two lists of fields have the same structure. A description that is absent counts as an
empty one. -/
inductive FieldsMatch (rule : List String → List String → Prop) : List Field → List Field → Prop
  | nil : FieldsMatch rule [] []
  | cons {f g : Field} {fs gs : List Field} (hname : f.name = g.name)
      (hnullable : f.nullable = g.nullable)
      (hdescription : f.description.getD "" = g.description.getD "")
      (htype : Matches rule f.type g.type) (hrest : FieldsMatch rule fs gs) :
      FieldsMatch rule (f :: fs) (g :: gs)

end

end FieldType

/-! ## Labels -/

namespace Labels

/-- What stands between labels that are joined. -/
def separator : Char := '\x00'

/-- The parts of labels that separators leave; no label at all has one part, an empty one. -/
def parts : List String → List (List Char)
  | [] => [[]]
  | label :: labels => (label :: labels).flatMap fun l => l.toList.splitOn separator

/-- Whether labels have no separator inside, and are not just an empty one. -/
def IsPlain (labels : List String) : Prop :=
  (∀ label ∈ labels, separator ∉ label.toList) ∧ labels ≠ [""]

/-- Whether two lists of labels, of which one is not plain, have the same parts. -/
def Blend (labels labels' : List String) : Prop :=
  parts labels = parts labels' ∧ ¬ (IsPlain labels ∧ IsPlain labels')

/-- Whether two lists of labels are not told apart: they are equal, or they blend. -/
def Agree (labels labels' : List String) : Prop :=
  labels = labels' ∨ Blend labels labels'

theorem splitOn_append_separator (front back : List Char) :
    (front ++ separator :: back).splitOn separator =
      front.splitOn separator ++ back.splitOn separator :=
  List.splitOnP_append_cons front back (beq_self_eq_true separator)

/-- A joined text falls into the parts of its labels. -/
theorem splitOn_intercalate_eq_parts (labels : List String) :
    (List.intercalate [separator] (labels.map String.toList)).splitOn separator = parts labels := by
  induction labels with
  | nil => rfl
  | cons label labels ih =>
    cases labels with
    | nil => simp [parts, List.intercalate]
    | cons next labels =>
      have hjoined : List.intercalate [separator] ((label :: next :: labels).map String.toList) =
          label.toList ++ separator ::
            List.intercalate [separator] ((next :: labels).map String.toList) := by
        simp [List.intercalate]
      rw [hjoined, splitOn_append_separator, ih]
      rfl

/-- Joined labels are the same text if their parts are the same. -/
theorem joinedLabels_eq_iff_parts {labels labels' : Option (List String)} :
    FieldType.joinedLabels labels = FieldType.joinedLabels labels' ↔
      parts (labels.getD []) = parts (labels'.getD []) := by
  have hchars (ls : List String) : ("\x00".intercalate ls).toList =
      List.intercalate [separator] (ls.map String.toList) := String.toList_intercalate
  rw [FieldType.joinedLabels, FieldType.joinedLabels, ← String.toList_inj, hchars, hchars,
    ← splitOn_intercalate_eq_parts, ← splitOn_intercalate_eq_parts]
  refine ⟨fun h => congrArg _ h, fun h => ?_⟩
  have hback := congrArg (List.intercalate [separator]) h
  rwa [List.intercalate_splitOn, List.intercalate_splitOn] at hback

theorem parts_of_isPlain {label : String} {labels : List String}
    (h : ∀ l ∈ label :: labels, separator ∉ l.toList) :
    parts (label :: labels) = (label :: labels).map String.toList := by
  rw [← splitOn_intercalate_eq_parts]
  refine List.splitOn_intercalate separator ?_ (by simp)
  intro l hl
  obtain ⟨label', hlabel', rfl⟩ := List.mem_map.mp hl
  exact h label' hlabel'

/-- Plain labels are told by their parts. -/
theorem eq_of_parts_eq {labels labels' : List String} (hplain : IsPlain labels)
    (hplain' : IsPlain labels') (h : parts labels = parts labels') : labels = labels' := by
  have hempty {label : String} {rest : List String}
      (hp : IsPlain (label :: rest)) : parts (label :: rest) ≠ parts [] := by
    intro hparts
    rw [parts_of_isPlain hp.1] at hparts
    obtain ⟨hlabel, hrest⟩ := List.cons.inj hparts
    obtain rfl : rest = [] := List.map_eq_nil_iff.mp hrest
    obtain rfl : label = "" := String.toList_inj.mp hlabel
    exact hp.2 rfl
  cases labels with
  | nil =>
    cases labels' with
    | nil => rfl
    | cons label' rest' => exact absurd h.symm (hempty hplain')
  | cons label rest =>
    cases labels' with
    | nil => exact absurd h (hempty hplain)
    | cons label' rest' =>
      rw [parts_of_isPlain hplain.1, parts_of_isPlain hplain'.1] at h
      exact (List.map_inj_right fun _ _ => String.toList_inj.mp).mp h

/-- Labels have the same parts if they are equal or blend. -/
theorem parts_eq_iff {labels labels' : List String} :
    parts labels = parts labels' ↔ Agree labels labels' := by
  constructor
  · intro h
    by_cases hplain : IsPlain labels ∧ IsPlain labels'
    · exact Or.inl (eq_of_parts_eq hplain.1 hplain.2 h)
    · exact Or.inr ⟨h, hplain⟩
  · rintro (rfl | h)
    · rfl
    · exact h.1

theorem joinedLabels_eq_iff {labels labels' : Option (List String)} :
    FieldType.joinedLabels labels = FieldType.joinedLabels labels' ↔
      Agree (labels.getD []) (labels'.getD []) :=
  joinedLabels_eq_iff_parts.trans parts_eq_iff

end Labels

/-! ## The comparison -/

namespace FieldType

theorem sameFields_iff {fields : List Field}
    (h : ∀ f ∈ fields, ∀ type, same f.type type = true ↔ Matches Labels.Agree f.type type)
    (others : List Field) :
    sameFields fields others = true ↔ FieldsMatch Labels.Agree fields others := by
  induction fields generalizing others with
  | nil =>
    cases others with
    | nil => exact iff_of_true rfl .nil
    | cons g others => exact iff_of_false (by simp [sameFields]) nofun
  | cons f fields ih =>
    cases others with
    | nil => exact iff_of_false (by simp [sameFields]) nofun
    | cons g others =>
      have hrest := ih (fun f hf => h f (List.mem_cons_of_mem _ hf)) others
      simp only [sameFields, Bool.and_eq_true, beq_iff_eq, h f List.mem_cons_self, hrest]
      constructor
      · rintro ⟨⟨⟨⟨hname, hnullable⟩, hdescription⟩, htype⟩, hrest⟩
        exact .cons hname hnullable hdescription htype hrest
      · rintro (_ | ⟨hname, hnullable, hdescription, htype, hrest⟩)
        exact ⟨⟨⟨⟨hname, hnullable⟩, hdescription⟩, htype⟩, hrest⟩

/-- The comparison of types follows the rules. -/
theorem same_iff (type other : FieldType) :
    same type other = true ↔ Matches Labels.Agree type other := by
  induction type generalizing other with
  | primitive kind =>
    cases other with
    | primitive kind' =>
      rw [same, beq_iff_eq]
      refine ⟨fun h => h ▸ .primitive kind, fun h => ?_⟩
      cases h
      rfl
    | _ => exact iff_of_false (by simp [same]) nofun
  | array element elementNullable ih =>
    cases other with
    | array element' elementNullable' =>
      rw [same, Bool.and_eq_true, beq_iff_eq, ih]
      constructor
      · rintro ⟨rfl, helement⟩
        exact .array helement
      · rintro ⟨⟩
        exact ⟨rfl, ‹_›⟩
    | _ => exact iff_of_false (by simp [same]) nofun
  | map key value valueNullable ihKey ihValue =>
    cases other with
    | map key' value' valueNullable' =>
      rw [same, Bool.and_eq_true, Bool.and_eq_true, beq_iff_eq, ihKey, ihValue]
      constructor
      · rintro ⟨⟨rfl, hkey⟩, hvalue⟩
        exact .map hkey hvalue
      · rintro ⟨⟩
        exact ⟨⟨rfl, ‹_›⟩, ‹_›⟩
    | _ => exact iff_of_false (by simp [same]) nofun
  | row fields ih =>
    cases other with
    | row fields' =>
      rw [same, sameFields_iff ih]
      refine ⟨.row, fun h => ?_⟩
      cases h
      assumption
    | _ => exact iff_of_false (by simp [same]) nofun
  | logical identifier base representation labels ih =>
    cases other with
    | logical identifier' base' representation' labels' =>
      simp only [same, Bool.and_eq_true, beq_iff_eq, Labels.joinedLabels_eq_iff,
        ih]
      constructor
      · rintro ⟨⟨⟨rfl, hrepresentation⟩, hbase⟩, hlabels⟩
        exact .logical hrepresentation hbase hlabels
      · rintro ⟨⟩
        exact ⟨⟨⟨rfl, ‹_›⟩, ‹_›⟩, ‹_›⟩
    | _ => exact iff_of_false (by simp [same]) nofun
  | unknown kind =>
    cases other with
    | unknown kind' =>
      rw [same, beq_iff_eq]
      refine ⟨fun h => h ▸ .unknown kind, fun h => ?_⟩
      cases h
      rfl
    | _ => exact iff_of_false (by simp [same]) nofun

end FieldType

/-- Schemas are the same if they have the same structure, where labels that blend count as equal. -/
theorem Schema.same_iff_fieldsMatch (a b : Schema) :
    a.same b = true ↔ FieldType.FieldsMatch Labels.Agree a b :=
  FieldType.sameFields_iff (fun f _ => FieldType.same_iff f.type) b

/-- A label with a NUL in it is taken for two, and a single empty label for none. -/
theorem Schema.same_of_blend :
    (Schema.same [⟨"e", .enumeration ["a\x00b"], false, none⟩]
        [⟨"e", .enumeration ["a", "b"], false, none⟩] = true ∧
      ¬ FieldType.FieldsMatch (· = ·) [⟨"e", .enumeration ["a\x00b"], false, none⟩]
        [⟨"e", .enumeration ["a", "b"], false, none⟩]) ∧
    Schema.same [⟨"e", .enumeration [""], false, none⟩]
        [⟨"e", .enumeration [], false, none⟩] = true ∧
      ¬ FieldType.FieldsMatch (· = ·) [⟨"e", .enumeration [""], false, none⟩]
        [⟨"e", .enumeration [], false, none⟩] := by
  refine ⟨⟨by decide +kernel, ?_⟩, by decide +kernel, ?_⟩
  · rintro (_ | ⟨_, _, _, htype, _⟩)
    cases htype with
    | logical _ _ hlabels => exact absurd hlabels (by decide)
  · rintro (_ | ⟨_, _, _, htype, _⟩)
    cases htype with
    | logical _ _ hlabels => exact absurd hlabels (by decide)

end WarehouseRows
