import WarehouseRows.Text.Placeholder
import Mathlib.Data.List.Infix

/-!
# Where the placeholders of a text are

What a placeholder is, is said of a stretch of text on its own, and the placeholders of a text are
found from left to right: wherever one starts it is taken, and the search goes on behind it. A text
has only one such division into pieces, and the scan gives it.

The part in front of the first mark in a placeholder, and the part behind it, are told by the text
in the same way.

## Main definitions

* `Piece.Found`: the pieces of a text.
* `Placeholder.Parts`: what stands in front of the first mark and behind it.
-/

namespace WarehouseRows

/-! ## The parts of a placeholder -/

namespace Placeholder

/-- What stands between the name of a placeholder and its default. -/
def mark : List Char := [':', '-']

/-- Whether `front` stands in front of the first mark of a text, and `rest` behind it. -/
inductive Parts : List Char → List Char → Option (List Char) → Prop
  | whole {cs : List Char} (hnone : ¬ mark <:+: cs) : Parts cs cs none
  | split {front : List Char} (rest : List Char) (hnone : ¬ mark <:+: front) :
      Parts (front ++ mark ++ rest) front (some rest)

theorem mark_infix_cons {c : Char} {cs : List Char} :
    mark <:+: c :: cs ↔ (c = ':' ∧ ∃ rest, cs = '-' :: rest) ∨ mark <:+: cs := by
  rw [List.infix_cons_iff, mark, List.cons_prefix_cons]
  cases cs with
  | nil => simp
  | cons d cs => simp [List.cons_prefix_cons, eq_comm]

theorem cut_cons {c : Char} {cs : List Char} (h : ¬ (c = ':' ∧ ∃ rest, cs = '-' :: rest)) :
    cut (c :: cs) = (c :: (cut cs).1, (cut cs).2) :=
  cut.eq_3 c cs fun rest hc hcs => h ⟨hc, rest, hcs⟩

theorem parts_cut (cs : List Char) : Parts cs (cut cs).1 (cut cs).2 := by
  fun_induction cut cs with
  | case1 => exact .whole (by simp [mark])
  | case2 rest => exact @Parts.split [] rest (by simp [mark])
  | case3 c rest hnot ih =>
    have hhead (front : List Char) (hfront : ∀ d ds, front = d :: ds → ∃ ds, rest = d :: ds)
        (hnone : ¬ mark <:+: front) : ¬ mark <:+: c :: front := by
      rw [mark_infix_cons, not_or]
      refine ⟨?_, hnone⟩
      rintro ⟨rfl, ds, hds⟩
      obtain ⟨rest', hrest'⟩ := hfront _ _ hds
      exact hnot rest' rfl hrest'
    generalize cut rest = parts at ih
    obtain ⟨front, behind⟩ := parts
    cases ih with
    | whole hnone => exact .whole (hhead _ (fun d ds hds => ⟨ds, hds⟩) hnone)
    | split behind hnone =>
      exact .split behind (hhead _ (fun d ds hds => ⟨ds ++ mark ++ behind, by rw [hds]; rfl⟩) hnone)

theorem cut_of_not_infix {cs : List Char} (h : ¬ mark <:+: cs) : cut cs = (cs, none) := by
  induction cs with
  | nil => rfl
  | cons c cs ih =>
    rw [mark_infix_cons, not_or] at h
    rw [cut_cons h.1, ih h.2]

theorem cut_append_mark {front : List Char} (h : ¬ mark <:+: front) (rest : List Char) :
    cut (front ++ mark ++ rest) = (front, some rest) := by
  induction front with
  | nil => rfl
  | cons c front ih =>
    rw [mark_infix_cons, not_or] at h
    have hhead : ¬ (c = ':' ∧ ∃ behind, front ++ mark ++ rest = '-' :: behind) := by
      rintro ⟨rfl, behind, hbehind⟩
      cases front with
      | nil => simp [mark] at hbehind
      | cons d front => exact h.1 ⟨rfl, front, by simp_all⟩
    rw [List.cons_append, List.cons_append, cut_cons hhead, ih h.2]

/-- A text is cut at its first mark. -/
theorem parts_iff {cs front : List Char} {rest : Option (List Char)} :
    Parts cs front rest ↔ cut cs = (front, rest) := by
  constructor
  · rintro (hnone | ⟨rest, hnone⟩)
    · exact cut_of_not_infix hnone
    · exact cut_append_mark hnone rest
  · intro h
    have hparts := parts_cut cs
    rwa [h] at hparts

/-- The part in front of the first mark is the whole text where there is no mark. -/
theorem Parts.eq_iff {cs front : List Char} {rest : Option (List Char)} (h : Parts cs front rest) :
    front = cs ↔ ¬ mark <:+: cs := by
  cases h with
  | whole hnone => exact iff_of_true rfl hnone
  | split rest hnone =>
    refine iff_of_false (fun heq => ?_) (not_not_intro ⟨front, rest, rfl⟩)
    simpa [mark] using congrArg List.length heq

end Placeholder

/-! ## The pieces of a text -/

namespace Placeholder

/-- Whether characters may stand in the braces of a placeholder. -/
def IsInner (inner : Placeholder) : Prop :=
  inner ≠ [] ∧ '}' ∉ inner

/-- Whether a text starts with a placeholder. -/
def Opens (cs : List Char) : Prop :=
  ∃ (inner : Placeholder) (rest : List Char), inner.IsInner ∧ cs = inner.written ++ rest

end Placeholder

namespace Piece

open Placeholder

/-- Whether pieces are those of a text: placeholders where they start from left to right, and
characters on their own elsewhere. -/
inductive Found : List Char → List Piece → Prop
  | nil : Found [] []
  | placeholder {inner : Placeholder} {rest : List Char} {pieces : List Piece}
      (hinner : inner.IsInner) (hrest : Found rest pieces) :
      Found (inner.written ++ rest) (.placeholder inner :: pieces)
  | plain {c : Char} {rest : List Char} {pieces : List Piece} (hnone : ¬ Opens (c :: rest))
      (hrest : Found rest pieces) : Found (c :: rest) (.plain c :: pieces)

theorem scanInside_of_not_mem {seen cs : List Char} (h : '}' ∉ cs) :
    scanInside seen cs = ('$' :: '{' :: (seen.reverse ++ cs)).map plain := by
  induction cs generalizing seen with
  | nil => rw [scanInside, List.append_nil]
  | cons c cs ih =>
    rw [List.mem_cons, not_or] at h
    rw [scanInside.eq_3 seen c cs (Ne.symm h.1), ih h.2]
    simp

/-- The text of a placeholder ends at the first closing brace. -/
theorem scanInside_append {seen inner : List Char} (h : '}' ∉ inner) (rest : List Char) :
    scanInside seen (inner ++ '}' :: rest) = scanInside (inner.reverse ++ seen) ('}' :: rest) := by
  induction inner generalizing seen with
  | nil => rfl
  | cons c inner ih =>
    rw [List.mem_cons, not_or] at h
    rw [List.cons_append, scanInside.eq_3 seen c _ (Ne.symm h.1), ih h.2]
    simp

theorem scan_cons {c : Char} {rest : List Char} (h : ¬ (c = '$' ∧ ∃ behind, rest = '{' :: behind)) :
    scan (c :: rest) = plain c :: scan rest :=
  scan.eq_3 c rest fun behind hc hrest => h ⟨hc, behind, hrest⟩

/-- Without a closing brace there is no placeholder. -/
theorem scan_of_not_mem {cs : List Char} (h : '}' ∉ cs) : scan cs = cs.map plain := by
  induction cs with
  | nil => rfl
  | cons c cs ih =>
    by_cases hopening : c = '$' ∧ ∃ behind, cs = '{' :: behind
    · obtain ⟨rfl, behind, rfl⟩ := hopening
      rw [List.mem_cons, List.mem_cons, not_or, not_or] at h
      rw [scan, scanInside_of_not_mem h.2.2]
      rfl
    · rw [scan_cons hopening, ih fun hmem => h (List.mem_cons_of_mem _ hmem), List.map_cons]

/-- Where no placeholder starts, the first character is a piece. -/
theorem scan_of_not_opens {c : Char} {rest : List Char} (h : ¬ Opens (c :: rest)) :
    scan (c :: rest) = plain c :: scan rest := by
  by_cases hopening : c = '$' ∧ ∃ behind, rest = '{' :: behind
  · obtain ⟨rfl, cs, rfl⟩ := hopening
    by_cases hclosed : '}' ∈ cs
    · obtain ⟨inner, behind, rfl, hinner⟩ := List.eq_append_cons_of_mem hclosed
      cases inner with
      | nil => simp [scan, scanInside]
      | cons d inner =>
        refine absurd ⟨d :: inner, behind, ⟨by simp, hinner⟩, ?_⟩ h
        simp [Placeholder.written]
    · rw [scan_of_not_mem (by simpa using hclosed), scan_of_not_mem (by simpa using hclosed),
        List.map_cons]
  · exact scan_cons hopening

/-- Where a placeholder starts, it is a piece. -/
theorem scan_written_append {inner : Placeholder} (h : inner.IsInner) (rest : List Char) :
    scan (inner.written ++ rest) = placeholder inner :: scan rest := by
  have hwritten : inner.written ++ rest = '$' :: '{' :: (inner ++ '}' :: rest) := by
    simp [Placeholder.written]
  rw [hwritten, scan, scanInside_append h.2, scanInside, if_neg (by simpa using h.1)]
  simp

theorem length_lt_written_append (inner : Placeholder) (rest : List Char) :
    rest.length < (inner.written ++ rest).length := by
  simp only [Placeholder.written, List.length_append, List.length_cons]
  omega

theorem exists_found (cs : List Char) : ∃ pieces, Found cs pieces := by
  by_cases hopens : Opens cs
  · obtain ⟨inner, rest, hinner, rfl⟩ := hopens
    have := length_lt_written_append inner rest
    obtain ⟨pieces, hpieces⟩ := exists_found rest
    exact ⟨_, .placeholder hinner hpieces⟩
  · match cs with
    | [] => exact ⟨[], .nil⟩
    | c :: rest =>
      obtain ⟨pieces, hpieces⟩ := exists_found rest
      exact ⟨_, .plain hopens hpieces⟩
termination_by cs.length

/-- The scan gives the pieces of a text. -/
theorem found_iff {cs : List Char} {pieces : List Piece} : Found cs pieces ↔ scan cs = pieces := by
  have hscan {cs : List Char} {pieces : List Piece} (h : Found cs pieces) : scan cs = pieces := by
    induction h with
    | nil => rfl
    | placeholder hinner hrest ih => rw [scan_written_append hinner, ih]
    | plain hnone hrest ih => rw [scan_of_not_opens hnone, ih]
  refine ⟨hscan, ?_⟩
  rintro rfl
  obtain ⟨pieces, hpieces⟩ := exists_found cs
  rwa [hscan hpieces]

/-- A text without dollar signs has no placeholder, whatever follows it. -/
theorem scan_append {cs : List Char} (h : '$' ∉ cs) (rest : List Char) :
    scan (cs ++ rest) = cs.map plain ++ scan rest := by
  induction cs with
  | nil => rfl
  | cons c cs ih =>
    rw [List.mem_cons, not_or] at h
    rw [List.cons_append, scan_cons fun hc => h.1 hc.1.symm, ih h.2]
    rfl

end Piece

end WarehouseRows
