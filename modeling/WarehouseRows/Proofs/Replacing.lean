import WarehouseRows.Text.Replace

/-!
# What replacing does to the parts of a text

A text is cut into a front and a tail, and the matches of the front are replaced on their own. This
is right if no match of the front depends on the tail, or reaches into it.

## Main definitions

* `Text.charBefore`: the character in front of what follows a text.
* `Text.FoundIn`: what a rule finds at a place is the same for all tails, and ends before them.
-/

namespace WarehouseRows.Text

/-! ## Parts of a text -/

/-- What stands behind a text is told by the text and what it starts with. -/
theorem after?_eq_some {lead cs rest : List Char} : after? lead cs = some rest ↔ cs = lead ++ rest := by
  rw [after?]
  constructor
  · intro h
    split at h
    · rename_i hlead
      rw [← Option.some.inj h]
      exact (List.prefix_iff_eq_append.mp (List.isPrefixOf_iff_prefix.mp hlead)).symm
    · exact absurd h (by simp)
  · rintro rfl
    rw [if_pos (List.isPrefixOf_iff_prefix.mpr (List.prefix_append _ _)), List.drop_left]

/-- Whether a lead stands in front of a text does not depend on what follows a character that is not
in the lead. -/
theorem after?_append {lead : List Char} {c : Char} (hc : c ∉ lead) (s t : List Char) :
    after? lead (s ++ c :: t) = (after? lead s).map (· ++ c :: t) := by
  cases hs : after? lead s with
  | some rest =>
    rw [after?_eq_some] at hs
    rw [Option.map_some, after?_eq_some, hs, List.append_assoc]
  | none =>
    have hnot : ∀ rest, s ≠ lead ++ rest := by
      rintro rest hrest
      rw [after?_eq_some.mpr hrest] at hs
      exact absurd hs (by simp)
    rw [Option.map_none, Option.eq_none_iff_forall_ne_some]
    intro rest hrest
    rw [after?_eq_some] at hrest
    rcases List.append_eq_append_iff.mp hrest with ⟨back, hlead, hback⟩ | ⟨back, hback, _⟩
    · cases back with
      | nil => exact hnot [] (by simpa using hlead.symm)
      | cons x back =>
        obtain rfl : c = x := (List.cons.inj hback).1
        exact hc (by simp [hlead])
    · exact hnot back hback

theorem takeWhile_append_cons {p : Char → Bool} {c : Char} (hc : p c = false) (s t : List Char) :
    (s ++ c :: t).takeWhile p = s.takeWhile p := by
  induction s with
  | nil => simp [hc]
  | cons x s ih => simp [List.takeWhile_cons, ih]

theorem dropWhile_append_cons {p : Char → Bool} {c : Char} (hc : p c = false) (s t : List Char) :
    (s ++ c :: t).dropWhile p = s.dropWhile p ++ c :: t := by
  induction s with
  | nil => simp [hc]
  | cons x s ih =>
    simp only [List.cons_append, List.dropWhile_cons, ih]
    split <;> rfl

/-- A run does not depend on what follows a character that is not of its class. -/
theorem run?_append {p : Char → Bool} {c : Char} (hc : p c = false) (s t : List Char) :
    run? p (s ++ c :: t) = (run? p s).map fun found => (found.1, found.2 ++ c :: t) := by
  rw [run?, run?, takeWhile_append_cons hc, dropWhile_append_cons hc]
  split <;> rfl

/-- A run is told by the text, if a character that is not of its class ends it. -/
theorem eq_of_append_cons {p : Char → Bool} {c : Char} {taken other rest rest' : List Char}
    (htaken : ∀ x ∈ taken, p x = true) (hother : ∀ x ∈ other, p x = true) (hc : p c = false)
    (h : taken ++ c :: rest = other ++ c :: rest') : taken = other ∧ rest = rest' := by
  have hend : ¬ p c = true := by simp [hc]
  have hrun := congrArg (List.takeWhile p) h
  rw [List.takeWhile_append_of_pos htaken, List.takeWhile_append_of_pos hother,
    List.takeWhile_cons_of_neg hend, List.takeWhile_cons_of_neg hend, List.append_nil,
    List.append_nil] at hrun
  rw [hrun, List.append_cancel_left_eq, List.cons.injEq] at h
  exact ⟨hrun, h.2⟩

theorem run?_eq_some {p : Char → Bool} {cs taken rest : List Char}
    (h : run? p cs = some (taken, rest)) :
    cs = taken ++ rest ∧ taken ≠ [] ∧ ∀ c ∈ taken, p c = true := by
  rw [run?] at h
  split at h
  · exact absurd h (by simp)
  · rename_i hne
    obtain ⟨rfl, rfl⟩ := Prod.mk.inj (Option.some.inj h)
    exact ⟨List.takeWhile_append_dropWhile.symm, by simpa using hne,
      List.all_eq_true.mp List.all_takeWhile⟩

/-- A run ends at a character that is not of its class. -/
theorem run?_of_forall {p : Char → Bool} {taken : List Char} {c : Char} (rest : List Char)
    (hne : taken ≠ []) (htaken : ∀ x ∈ taken, p x = true) (hc : p c = false) :
    run? p (taken ++ c :: rest) = some (taken, c :: rest) := by
  have hend : ¬ p c = true := by simp [hc]
  rw [run?, List.takeWhile_append_of_pos htaken, List.dropWhile_append_of_pos htaken,
    List.takeWhile_cons_of_neg hend, List.dropWhile_cons_of_neg hend, List.append_nil,
    if_neg (by simpa using hne)]

/-! ## Replacing -/

/-- The character in front of what follows a text. -/
def charBefore (before : Option Char) : List Char → Option Char
  | [] => before
  | c :: rest => charBefore (some c) rest

theorem charBefore_concat (before : Option Char) (cs : List Char) (c : Char) :
    charBefore before (cs ++ [c]) = some c := by
  induction cs generalizing before with
  | nil => rfl
  | cons x cs ih => exact ih (some x)

variable {rule : Option Char → List Char → Option Match}

/-- The characters of a match are passed over. -/
theorem replaceFrom_skip (before : Option Char) (front tail : List Char) :
    replaceFrom rule before front.length (front ++ tail) =
      replaceFrom rule (charBefore before front) 0 tail := by
  induction front generalizing before with
  | nil => rfl
  | cons c front ih =>
    rw [List.length_cons, List.cons_append, replaceFrom]
    exact ih (some c)

/-- A match at the front is replaced. -/
theorem replaceFrom_match {before : Option Char} {front tail : List Char} {found : Match}
    (h : rule before (front ++ tail) = some found) (hlen : found.more + 1 = front.length) :
    replaceFrom rule before 0 (front ++ tail) =
      found.replacement ++ replaceFrom rule (charBefore before front) 0 tail := by
  cases front with
  | nil => exact absurd hlen (by simp)
  | cons c front =>
    rw [List.length_cons, Nat.add_right_cancel_iff] at hlen
    rw [List.cons_append] at h ⊢
    rw [replaceFrom, h]
    simp only [hlen, replaceFrom_skip, charBefore]

/-- A front stays as it is if nothing matches at any place in it. -/
theorem replaceFrom_of_none {before : Option Char} {front tail : List Char}
    (h : ∀ s, s ≠ [] → s <:+ front → ∀ before, rule before (s ++ tail) = none) :
    replaceFrom rule before 0 (front ++ tail) =
      front ++ replaceFrom rule (charBefore before front) 0 tail := by
  induction front generalizing before with
  | nil => rfl
  | cons c front ih =>
    have hnone := h (c :: front) (by simp) List.suffix_rfl before
    have hrest := @ih (some c) fun s hs hsuffix =>
      h s hs (hsuffix.trans (List.suffix_cons c front))
    rw [List.cons_append] at hnone ⊢
    rw [replaceFrom, hnone]
    simp only [hrest, charBefore, List.cons_append]

/-- Whether what a rule finds at the start of a text is the same for all tails that may follow, and
ends before them. -/
def FoundIn (rule : Option Char → List Char → Option Match) (tails : List Char → Prop)
    (s : List Char) : Prop :=
  ∀ before, ∃ found, (∀ tail, tails tail → rule before (s ++ tail) = found) ∧
    ∀ m, found = some m → m.more < s.length

/-- The matches of a front are replaced in the same way for all tails. -/
theorem exists_replaceFrom_append {tails : List Char → Prop} {front : List Char}
    (h : ∀ s, s ≠ [] → s <:+ front → FoundIn rule tails s) (before : Option Char) {skip : Nat}
    (hskip : skip ≤ front.length) :
    ∃ done, ∀ tail, tails tail → replaceFrom rule before skip (front ++ tail) =
      done ++ replaceFrom rule (charBefore before front) 0 tail := by
  induction front generalizing before skip with
  | nil =>
    obtain rfl : skip = 0 := Nat.le_zero.mp hskip
    exact ⟨[], fun _ _ => rfl⟩
  | cons c front ih =>
    have hrest : ∀ s, s ≠ [] → s <:+ front → FoundIn rule tails s := fun s hs hsuffix =>
      h s hs (hsuffix.trans (List.suffix_cons c front))
    cases skip with
    | succ skip =>
      obtain ⟨done, hdone⟩ := ih hrest (some c) (Nat.le_of_succ_le_succ hskip)
      refine ⟨done, fun tail htail => ?_⟩
      rw [List.cons_append, replaceFrom, hdone tail htail, charBefore]
    | zero =>
      obtain ⟨found, hfound, hends⟩ := h (c :: front) (by simp) List.suffix_rfl before
      cases found with
      | none =>
        obtain ⟨done, hdone⟩ := ih hrest (some c) (Nat.zero_le _)
        refine ⟨c :: done, fun tail htail => ?_⟩
        have hnone := hfound tail htail
        rw [List.cons_append] at hnone ⊢
        rw [replaceFrom, hnone]
        simp only [hdone tail htail, charBefore, List.cons_append]
      | some m =>
        obtain ⟨done, hdone⟩ := ih hrest (some c) (Nat.le_of_lt_succ (hends m rfl))
        refine ⟨m.replacement ++ done, fun tail htail => ?_⟩
        have hmatch := hfound tail htail
        rw [List.cons_append] at hmatch ⊢
        rw [replaceFrom, hmatch]
        simp only [hdone tail htail, charBefore, List.append_assoc]

end WarehouseRows.Text
