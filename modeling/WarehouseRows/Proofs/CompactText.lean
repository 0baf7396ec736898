import WarehouseRows.Proofs.JsonText

/-!
# JSON text on one line is read back

On one line there are no blanks between the parts of a value: items and members follow each other
with a comma, and a name is followed by a colon and the value. The laws of the reader that serve
texts over several lines serve these texts too, with nothing where the blanks would be.
-/

namespace WarehouseRows.Json

theorem isJsonBlank_nil : ∀ b ∈ ([] : List Char), isJsonBlank b = true :=
  fun _ hb => absurd hb List.not_mem_nil

theorem itemsDenote_compact {items : List Json} (rest : List Char) (hne : items ≠ [])
    (h : ∀ item ∈ items, ∀ after, Denotes (compactThen item after) item after) :
    ItemsDenote (compactItemsThen items (']' :: rest)) items rest := by
  induction items with
  | nil => exact absurd rfl hne
  | cons item items ih =>
    have hfirst := h item List.mem_cons_self
    cases items with
    | nil =>
      have hlast : Denotes (compactThen item (']' :: rest)) item ([] ++ ']' :: rest) := hfirst _
      exact itemsDenote_last hlast isJsonBlank_nil
    | cons next items =>
      apply itemsDenote_cons (hfirst _)
      exact ih (by simp) fun item hitem => h item (List.mem_cons_of_mem _ hitem)

theorem membersDenote_compact {members : List (String × Json)} (rest : List Char)
    (hne : members ≠ [])
    (h : ∀ m ∈ members, ∀ after, Denotes (compactThen m.2 after) m.2 after) :
    MembersDenote (compactMembersThen members ('\x7d' :: rest)) members rest := by
  induction members with
  | nil => exact absurd rfl hne
  | cons m members ih =>
    obtain ⟨name, value⟩ := m
    have hfirst := h (name, value) List.mem_cons_self
    cases members with
    | nil =>
      have hlast : Denotes (compactThen value ('\x7d' :: rest)) value ([] ++ '\x7d' :: rest) :=
        hfirst _
      exact membersDenote_last isJsonBlank_nil hlast isJsonBlank_nil
    | cons next members =>
      apply membersDenote_cons isJsonBlank_nil (hfirst _)
      exact ih (by simp) fun m hm => h m (List.mem_cons_of_mem _ hm)

/-- A value is read from its text on one line, whatever comes after it. -/
theorem denotes_compactThen {j : Json} (h : j.IsTextual) (rest : List Char) :
    Denotes (compactThen j rest) j rest := by
  induction j generalizing rest with
  | null => exact denotes_null
  | bool b => exact denotes_bool b
  | number x => exact absurd h id
  | string s => exact denotes_string s
  | array items ih =>
    cases items with
    | nil => exact denotes_emptyArray
    | cons item items =>
      apply denotes_array
      apply itemsDenote_compact rest (by simp)
      intro item hitem after
      exact ih item hitem (allTextual_iff.mp h item hitem) after
  | object members ih =>
    obtain ⟨horder, hvalues⟩ := h
    cases members with
    | nil => exact denotes_emptyObject
    | cons m members =>
      have hmembers := membersDenote_compact rest (by simp)
        fun m hm after => ih m hm (membersTextual_iff.mp hvalues m hm) after
      have hobject := denotes_object hmembers
      rw [horder] at hobject
      exact hobject

/-- The text of a value on one line is read as the value. -/
theorem parse_compact {j : Json} (h : j.IsTextual) : parse j.compact = .ok j :=
  parse_of_denotes (denotes_compactThen h []) isJsonBlank_nil

end WarehouseRows.Json
