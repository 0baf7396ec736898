import WarehouseRows.Proofs.ReaderSoundness

/-!
# Items in wrapped cells

The items of an array and the entries of a map may each stand in the wrapping of cells. For a map,
and for an array whose elements are no rows, a list reads the same with the wrapping and without
it, failures included. An item of an array of rows is unwrapped only if it is an object: a row may
have a single field of the name of the wrapping, and its table row must not be taken for a wrapped
cell. An item that is no object is therefore read as a row itself once it is wrapped, and the two
lists then never give the same value.

## Main definitions

* `Cell.wrapped`: a value in the wrapping of cells.
* `Cell.IsWrapped`: the values that look like wrapped cells.
-/

namespace WarehouseRows

open Outcome

namespace Cell

/-- A value in the wrapping of cells. -/
def wrapped (x : Value) : Value :=
  .record [(wrapName, x)]

/-- Whether a value is an object with a single member, which has the name of the wrapping. -/
def IsWrapped (v : Value) : Prop :=
  v.isObject = true ∧ ∃ inner, v.ownMembers = [(wrapName, inner)]

theorem unwrap_wrapped (x : Value) : unwrap (wrapped x) = x := rfl

theorem unwrap_of_not_isWrapped {x : Value} (h : ¬ IsWrapped x) : unwrap x = x := by
  rw [unwrap]
  split
  · rename_i hobject
    split
    · rename_i name inner hmembers
      have hname : name ≠ wrapName := by
        rintro rfl
        exact h ⟨hobject, inner, hmembers⟩
      rw [if_neg hname]
    · rfl
  · rfl

/-- A value in the wrapping is taken for the same map entry as the value itself. -/
theorem splitEntry_wrapped {x : Value} (h : ¬ IsWrapped x) (type : FieldType) :
    splitEntry type (wrapped x) = splitEntry type x := by
  rw [splitEntry, splitEntry, unwrap_wrapped, unwrap_of_not_isWrapped h]

/-! ## Single items -/

/-- An item of an array whose elements are no rows loses its wrapping. -/
theorem unwrapElement_wrapped {element : FieldType} (hrow : ∀ fields, element ≠ .row fields)
    {x : Value} (h : ¬ IsWrapped x) :
    unwrapElement element (wrapped x) = unwrapElement element x := by
  cases element with
  | row fields => exact absurd rfl (hrow fields)
  | primitive | array | map | logical | unknown =>
    exact (unwrap_wrapped x).trans (unwrap_of_not_isWrapped h).symm

/-- An item of an array of rows stays as it is. -/
theorem unwrapElement_row {x : Value} (h : ¬ IsWrapped x) (fields : List Field) :
    unwrapElement (.row fields) x = x := by
  rw [unwrapElement, unwrap_of_not_isWrapped h, ite_self]

/-- An item of an array of rows loses its wrapping if it is an object. -/
theorem unwrapElement_row_wrapped (x : Value) (fields : List Field) :
    unwrapElement (.row fields) (wrapped x) = if x.isObject then x else wrapped x := by
  rw [unwrapElement, unwrap_wrapped]

end Cell

namespace FieldType

open Cell

/-- A wrapped cell is a row with a value, if it is read as a row. -/
theorem parse_row_wrapped {fields : List Field} {nullable : Bool} {x v : Value}
    (h : parse (.row fields) nullable (wrapped x) = .ok v) : v ≠ .null := by
  have hrow : parse (.row fields) nullable (wrapped x) =
      (parseFields fields (wrapped x)).bind fun row => .ok (.list row) := by
    rw [parse.eq_def]
    rfl
  rw [hrow] at h
  obtain ⟨row, _, hv⟩ := bind_eq_ok.mp h
  rw [← Except.ok.inj hv]
  exact Value.noConfusion

/-- A value that is no object is read as a row only if it is absent, and the row is then missing. -/
theorem parse_row_of_isObject_false {fields : List Field} {nullable : Bool} {x v : Value}
    (hx : x.isObject = false) (h : parse (.row fields) nullable x = .ok v) : v = .null := by
  cases habsent : x.isAbsent with
  | true =>
    rw [parse_absent (.row fields) nullable habsent] at h
    exact (parseMissing_eq_ok h).2
  | false =>
    rw [parse.eq_def, habsent, if_neg Bool.false_ne_true] at h
    split at h
    · exact absurd h (by simp [parseText, parseScalar, bind, Except.bind])
    · simp [hx] at h

/-! ## Lists of items -/

theorem mapM_map_congr {ε β : Type} {f : Value → Except ε β} {g : Value → Value}
    {items : List Value} (h : ∀ x ∈ items, f (g x) = f x) :
    (items.map g).mapM f = items.mapM f := by
  induction items with
  | nil => rfl
  | cons x items ih =>
    rw [List.map_cons, List.mapM_cons, List.mapM_cons, h x List.mem_cons_self,
      ih fun y hy => h y (List.mem_cons_of_mem _ hy)]

/-- Items that are read the same one by one make up the same array. -/
theorem parse_array_map_congr {element : FieldType} {elementNullable : Bool} {g : Value → Value}
    {items : List Value} (h : ∀ x ∈ items,
      parse element elementNullable (unwrapElement element (g x)) =
        parse element elementNullable (unwrapElement element x)) (nullable : Bool) :
    parse (.array element elementNullable) nullable (.list (items.map g)) =
      parse (.array element elementNullable) nullable (.list items) := by
  rw [parse_array_list, parse_array_list, mapM_map_congr h]

theorem readEntries_map_congr {split : Value → Except Failure (Value × Value)}
    {readKey readValue : Value → Except Failure Value} {duplicate : Value → Failure}
    {g : Value → Value} {items : List Value} (h : ∀ x ∈ items, split (g x) = split x)
    (entries : List (Value × Value)) :
    Value.readEntries split readKey readValue duplicate entries (items.map g) =
      Value.readEntries split readKey readValue duplicate entries items := by
  induction items generalizing entries with
  | nil => rfl
  | cons x items ih =>
    rw [List.map_cons, Value.readEntries, Value.readEntries, h x List.mem_cons_self]
    simp only [ih fun y hy => h y (List.mem_cons_of_mem _ hy)]

/-- A list of wrapped entries is the same map as the list of the entries themselves. -/
theorem parse_map_wrapped {items : List Value} (h : ∀ x ∈ items, ¬ IsWrapped x)
    (keyType valueType : FieldType) (valueNullable nullable : Bool) :
    parse (.map keyType valueType valueNullable) nullable (.list (items.map wrapped)) =
      parse (.map keyType valueType valueNullable) nullable (.list items) := by
  rw [parse_map_list, parse_map_list,
    readEntries_map_congr fun x hx => splitEntry_wrapped (h x hx) _]

/-! ## Arrays of rows -/

/-- What two conversions of a list both give, they give at each item. -/
theorem same_of_mapM_eq_ok {ε α β : Type} {f g : α → Except ε β} {xs : List α} {ys : List β}
    (hf : xs.mapM f = .ok ys) (hg : xs.mapM g = .ok ys) {x : α} (hx : x ∈ xs) :
    ∃ y, f x = .ok y ∧ g x = .ok y := by
  induction xs generalizing ys with
  | nil => exact absurd hx List.not_mem_nil
  | cons first xs ih =>
    obtain ⟨y, ys', hy, hys, rfl⟩ := mapM_cons_eq_ok.mp hf
    obtain ⟨z, zs, hz, hzs, heq⟩ := mapM_cons_eq_ok.mp hg
    obtain ⟨rfl, rfl⟩ := List.cons.inj heq
    rcases List.mem_cons.mp hx with rfl | hx
    · exact ⟨y, hy, hz⟩
    · exact ih hys hzs hx

/-- If a list of rows is the same array with the wrapping and without it, all items are
objects. -/
theorem isObject_of_parse_wrapped {fields : List Field} {elementNullable nullable : Bool}
    {items : List Value} {back : Value} (h : ∀ x ∈ items, ¬ IsWrapped x)
    (hwrapped : parse (.array (.row fields) elementNullable) nullable
      (.list (items.map wrapped)) = .ok back)
    (hbare : parse (.array (.row fields) elementNullable) nullable (.list items) = .ok back) :
    ∀ x ∈ items, x.isObject = true := by
  intro x hx
  rw [parse_array_list] at hwrapped hbare
  obtain ⟨ys, hys, rfl⟩ := map_eq_ok.mp hwrapped
  obtain ⟨zs, hzs, hlists⟩ := map_eq_ok.mp hbare
  obtain rfl : zs = ys := Value.list.inj hlists
  rw [List.mapM_map] at hys
  obtain ⟨y, hy, hz⟩ := same_of_mapM_eq_ok hys hzs hx
  cases hobject : x.isObject with
  | true => rfl
  | false =>
    rw [Function.comp_apply, unwrapElement_row_wrapped, hobject, if_neg Bool.false_ne_true] at hy
    rw [unwrapElement_row (h x hx)] at hz
    exact absurd (parse_row_of_isObject_false hobject hz) (parse_row_wrapped hy)

/-- A list of objects is the same array of rows with the wrapping and without it. -/
theorem parse_rows_wrapped {items : List Value} (h : ∀ x ∈ items, ¬ IsWrapped x)
    (hobject : ∀ x ∈ items, x.isObject = true) (fields : List Field)
    (elementNullable nullable : Bool) :
    parse (.array (.row fields) elementNullable) nullable (.list (items.map wrapped)) =
      parse (.array (.row fields) elementNullable) nullable (.list items) := by
  apply parse_array_map_congr
  intro x hx
  rw [unwrapElement_row_wrapped, if_pos (hobject x hx), unwrapElement_row (h x hx)]

/-- A list of items that do not look like wrapped cells reads the same with each item in the
wrapping and without it: as a map, and as an array whose elements are no rows. As an array of rows
it gives the same value if all items are objects, or if neither list is read, and otherwise it
does not. -/
theorem parse_wrapped_items {items : List Value} (h : ∀ x ∈ items, ¬ IsWrapped x)
    (nullable : Bool) :
    (∀ keyType valueType valueNullable,
      parse (.map keyType valueType valueNullable) nullable (.list (items.map wrapped)) =
        parse (.map keyType valueType valueNullable) nullable (.list items)) ∧
    (∀ element elementNullable, (∀ fields, element ≠ .row fields) →
      parse (.array element elementNullable) nullable (.list (items.map wrapped)) =
        parse (.array element elementNullable) nullable (.list items)) ∧
    ∀ fields elementNullable,
      (∀ back,
        parse (.array (.row fields) elementNullable) nullable (.list (items.map wrapped)) =
            .ok back ↔
          parse (.array (.row fields) elementNullable) nullable (.list items) = .ok back) ↔
      (∀ x ∈ items, x.isObject = true) ∨ ∀ back,
        parse (.array (.row fields) elementNullable) nullable (.list (items.map wrapped)) ≠
            .ok back ∧
          parse (.array (.row fields) elementNullable) nullable (.list items) ≠ .ok back := by
  refine ⟨fun keyType valueType valueNullable => parse_map_wrapped h _ _ _ _, ?_, ?_⟩
  · intro element elementNullable hrow
    apply parse_array_map_congr
    intro x hx
    rw [unwrapElement_wrapped hrow (h x hx)]
  · intro fields elementNullable
    constructor
    · intro hsame
      by_cases hread : ∃ back,
          parse (.array (.row fields) elementNullable) nullable (.list items) = .ok back
      · obtain ⟨back, hback⟩ := hread
        exact Or.inl (isObject_of_parse_wrapped h ((hsame back).mpr hback) hback)
      · rw [not_exists] at hread
        exact Or.inr fun back => ⟨fun hback => hread back ((hsame back).mp hback), hread back⟩
    · rintro (hobject | hneither) back
      · rw [parse_rows_wrapped h hobject]
      · exact ⟨fun hback => absurd hback (hneither back).1,
          fun hback => absurd hback (hneither back).2⟩

/-- The items are a missing value, a text, a row and a list. -/
theorem parse_wrapped_items_mixed :
    let items : List Value := [.null, .string "a", .record [("a", .string "b")], .list []]
    (∀ keyType valueType valueNullable,
      parse (.map keyType valueType valueNullable) true (.list (items.map wrapped)) =
        parse (.map keyType valueType valueNullable) true (.list items)) ∧
    (∀ element elementNullable, (∀ fields, element ≠ .row fields) →
      parse (.array element elementNullable) true (.list (items.map wrapped)) =
        parse (.array element elementNullable) true (.list items)) ∧
    ∀ fields elementNullable,
      (∀ back,
        parse (.array (.row fields) elementNullable) true (.list (items.map wrapped)) = .ok back ↔
          parse (.array (.row fields) elementNullable) true (.list items) = .ok back) ↔
      (∀ x ∈ items, x.isObject = true) ∨ ∀ back,
        parse (.array (.row fields) elementNullable) true (.list (items.map wrapped)) ≠
            .ok back ∧
          parse (.array (.row fields) elementNullable) true (.list items) ≠ .ok back := by
  intro items
  refine parse_wrapped_items ?_ true
  intro x hx
  simp only [items, List.mem_cons, List.not_mem_nil, or_false] at hx
  rcases hx with rfl | rfl | rfl | rfl <;>
    simp [IsWrapped, Value.isObject, Value.ownMembers, wrapName]

/-- A missing row in an array of rows with a single field of the name of the wrapping is a row with
a missing value once it is wrapped. -/
theorem parse_wrapped_missing_row :
    let type : FieldType := .array (.row [⟨wrapName, .primitive .string, true, none⟩]) true
    let items : List Value := [.null]
    (∀ x ∈ items, ¬ IsWrapped x) ∧
      parse type false (.list items) = .ok (.list [.null]) ∧
      parse type false (.list (items.map wrapped)) = .ok (.list [.list [.null]]) ∧
      ¬ ∀ back, parse type false (.list (items.map wrapped)) = .ok back ↔
        parse type false (.list items) = .ok back := by
  intro type items
  have hbare : parse type false (.list items) = .ok (.list [.null]) := by rfl
  have hwrapped : parse type false (.list (items.map wrapped)) = .ok (.list [.list [.null]]) := by
    rfl
  refine ⟨?_, hbare, hwrapped, ?_⟩
  · intro x hx
    obtain rfl := List.mem_singleton.mp hx
    exact fun h => absurd h.1 (by decide)
  · intro hsame
    have h := (hsame _).mp hwrapped
    rw [hbare] at h
    simp at h

end FieldType

end WarehouseRows
