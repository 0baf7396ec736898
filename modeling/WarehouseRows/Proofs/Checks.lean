import WarehouseRows.Json.Shape
import WarehouseRows.Proofs.Members

/-!
# Checks that find nothing

A check gives a value only where none of its parts finds an issue, so what is known of a value
that was read is known part by part: a composed check is valid where its parts are, the check of
a member where the member is what it has to be.
-/

namespace WarehouseRows

/-! ## Composed checks -/

namespace Checked

variable {α β γ : Type}

theorem both_eq_valid {f : α → β → γ} {x : Checked α} {y : Checked β} {c : γ} :
    both f x y = .valid c ↔ ∃ a b, x = .valid a ∧ y = .valid b ∧ f a b = c := by
  cases x <;> cases y <;> simp [both]

theorem seq_eq_valid {x : Checked (α → β)} {y : Checked α} {b : β} :
    x <*> y = .valid b ↔ ∃ g a, x = .valid g ∧ y = .valid a ∧ g a = b :=
  both_eq_valid

@[simp] theorem map_valid (f : α → β) (a : α) : f <$> Checked.valid a = .valid (f a) :=
  rfl

theorem map_eq_valid {f : α → β} {x : Checked α} {b : β} :
    f <$> x = .valid b ↔ ∃ a, x = .valid a ∧ f a = b := by
  cases x with
  | valid a => simp
  | flawed fatal issues =>
    have hflawed : f <$> (Checked.flawed fatal issues) = .flawed fatal issues := rfl
    simp [hflawed]

@[simp] theorem seq_valid (g : α → β) (a : α) :
    Checked.valid g <*> Checked.valid a = .valid (g a) :=
  rfl

@[simp] theorem under_eq_valid {step : String} {x : Checked α} {a : α} :
    x.under step = .valid a ↔ x = .valid a := by
  cases x <;> simp [under]

/-- The items of a list are valid where each of them is. -/
theorem items_eq_valid {start : Nat} {checks : List (Checked α)} {as : List α} :
    items start checks = .valid as ↔ checks = as.map .valid := by
  induction checks generalizing start as with
  | nil => cases as <;> simp [items]
  | cons check checks ih =>
    rw [items, both_eq_valid]
    simp only [under_eq_valid, ih]
    cases as <;> simp

theorem toExcept_eq_ok {x : Checked α} {a : α} : x.toExcept = .ok a ↔ x = .valid a := by
  cases x <;> simp [toExcept]

end Checked

/-! ## Values -/

namespace Shape

variable {α : Type} {j : Json}

theorem filled_eq_valid {complaint s : String} :
    filled complaint j = .valid s ↔ j = .string s ∧ s ≠ "" := by
  cases j with
  | string t =>
    by_cases ht : t = ""
    · subst ht
      simp [filled, Checked.remark]
    · simp only [filled, String.isEmpty_iff, ht, if_false, Checked.valid.injEq, Json.string.injEq]
      grind
  | _ => simp [filled, wrongKind, Checked.refuse]

theorem bool_eq_valid {b : Bool} : bool j = .valid b ↔ j = .bool b := by
  cases j <;> simp [bool, wrongKind, Checked.refuse]

theorem oneOf_eq_valid {options : List (String × α)} {a : α} :
    oneOf options j = .valid a ↔ ∃ s, j = .string s ∧ options.lookup s = some a := by
  cases j with
  | string s => cases h : options.lookup s <;> simp [oneOf, Checked.refuse, h]
  | _ => simp [oneOf, wrongKind, Checked.refuse]

/-! ## Members -/

variable {members : Members Json} {name : String} {check : Json → Checked α}

/-- A member that has to be there is valid where its value is. -/
theorem required_eq_valid {a : α} :
    member members name (required check) = .valid a ↔
      ∃ j, members.get? name = some j ∧ check j = .valid a := by
  cases h : members.get? name <;> simp [member, required, Checked.refuse, h]

/-- A text that has to be there and not be empty. -/
theorem filledMember_eq_valid {complaint s : String} :
    member members name (required (filled complaint)) = .valid s ↔
      members.get? name = some (.string s) ∧ s ≠ "" := by
  rw [required_eq_valid]
  constructor
  · rintro ⟨j, hget, hj⟩
    obtain ⟨rfl, hs⟩ := filled_eq_valid.mp hj
    exact ⟨hget, hs⟩
  · rintro ⟨hget, hs⟩
    exact ⟨_, hget, filled_eq_valid.mpr ⟨rfl, hs⟩⟩

/-- A member that may be missing is valid where its value, if there is one, is. -/
theorem optional_eq_valid {o : Option α} :
    member members name (optional check) = .valid o ↔
      (members.get? name).map check = o.map .valid := by
  cases h : members.get? name with
  | none => cases o <;> simp [member, optional, h]
  | some j =>
    have hmap : (check j).map some = .valid o ↔ some (check j) = o.map Checked.valid := by
      cases check j <;> cases o <;> simp [Checked.map]
    simpa [member, optional, h] using hmap

/-- A flag is off where its member is missing. -/
theorem flag_eq_valid {b : Bool} :
    flag name members = .valid b ↔
      members.get? name = some (.bool b) ∨ members.get? name = none ∧ b = false := by
  cases hget : members.get? name with
  | none =>
    have hflag : flag name members = .valid false := by
      rw [flag, member, hget]
      rfl
    simp [hflag, eq_comm]
  | some j =>
    have hflag : flag name members = .valid b ↔ bool j = .valid b := by
      rw [flag, member, hget, optional]
      cases bool j <;> simp [Checked.map, Checked.under]
    simp [hflag, bool_eq_valid]

theorem closed_eq_valid {known : List String} {x : Checked α} {a : α} :
    closed known members x = .valid a ↔ x = .valid a ∧ ∀ n ∈ members.names, n ∈ known := by
  have hothers : noOthers known members = .valid () ↔ ∀ n ∈ members.names, n ∈ known := by
    rw [noOthers]
    split
    · rename_i hnone
      simpa [List.filter_eq_nil_iff] using hnone
    · rename_i hsome
      have hne : members.names.filter (fun n => !known.contains n) ≠ [] := hsome
      simpa [List.filter_eq_nil_iff, Checked.remark] using hne
  rw [closed, Checked.both_eq_valid]
  simp only [← hothers]
  grind

end Shape

/-! ## Members that are written only sometimes -/

namespace Json

theorem get?_optional (name : String) (value : Option Json) (m : String) :
    Members.get? (optional name value) m = if m = name then value else none := by
  cases value with
  | none => simp [optional, Members.get?]
  | some v => rw [optional, Members.get?_cons]; rfl

theorem names_optional_sublist (name : String) (value : Option Json) :
    (Members.names (optional name value)).Sublist [name] := by
  cases value with
  | none => exact List.nil_sublist _
  | some v => exact List.Sublist.refl _

end Json

end WarehouseRows
