import Mathlib.Data.List.Forall2
import WarehouseRows.Row.Scalar

/-!
# Words in any letter case

A truth value is true if the small form of its text is the word `true`. Small forms are taken by
the mappings of all letters, of which some give two letters and one depends on its neighbours. No
letter besides the capital ones of the word becomes a letter of the word, so that the texts are the
word itself with any of its letters capital.

## Main definitions

* `Text.SpellsWord`: the texts of a word in any letter case.

## Main results

* `PrimitiveKind.isTrueWord_iff`: the texts that are true.
-/

namespace WarehouseRows

namespace Text

/-- Whether characters are those of a word of small letters, each small or capital. -/
def SpellsWord (word cs : List Char) : Prop :=
  List.Forall₂ (fun letter c => c = letter ∨ c = letter.toUpper) word cs

instance (word cs : List Char) : Decidable (SpellsWord word cs) :=
  inferInstanceAs (Decidable (List.Forall₂ _ word cs))

/-- The letters of the word for true. -/
def trueLetters : List Char :=
  ['t', 'r', 'u', 'e']

/-! ## Letters -/

section

variable {letter : Char}

theorem mem_trueLetters :
    letter ∈ trueLetters ↔ letter = 't' ∨ letter = 'r' ∨ letter = 'u' ∨ letter = 'e' := by
  simp [trueLetters]

/-- The only run of the mapping that leads to the letters is the one of the capitals. -/
theorem offset_of_mem_lowerRuns (h : letter ∈ trueLetters) :
    ∀ r ∈ lowerRuns, (r.first : Int) ≤ letter.toNat - r.offset →
      (letter.toNat : Int) - r.offset ≤ r.last → r.offset = 32 := by
  rcases mem_trueLetters.mp h with rfl | rfl | rfl | rfl <;> decide +kernel

theorem lowerOf_letter (h : letter ∈ trueLetters) :
    lowerOf letter = [letter] ∧ lowerOf letter.toUpper = [letter] := by
  rcases mem_trueLetters.mp h with rfl | rfl | rfl | rfl <;> decide +kernel

theorem letter_facts (h : letter ∈ trueLetters) :
    letter.toUpper.toNat + 32 = letter.toNat ∧ letter ≠ 'i' ∧ letter ≠ 'Σ' ∧ letter.toUpper ≠ 'Σ' ∧
      letter ≠ 'ς' ∧ letter ≠ 'σ' := by
  rcases mem_trueLetters.mp h with rfl | rfl | rfl | rfl <;> decide

end

/-- A character other than the first one is made only of its own code. -/
theorem eq_toNat_of_ofNat_eq {n : Nat} {c : Char} (h : Char.ofNat n = c) (hc : c.toNat ≠ 0) :
    n = c.toNat := by
  subst h
  by_cases hvalid : n.isValidChar
  · rw [Char.ofNat, dif_pos hvalid]
    rfl
  · rw [Char.ofNat, dif_neg hvalid] at hc
    exact absurd rfl hc

/-- A character that is mapped to a letter is the letter or its capital. -/
theorem eq_or_eq_toUpper {c letter : Char} (hletter : letter ∈ trueLetters)
    (h : Char.ofNat (mapRuns lowerRuns c.toNat) = letter) : c = letter ∨ c = letter.toUpper := by
  obtain ⟨hupper, _⟩ := letter_facts hletter
  have hcode := eq_toNat_of_ofNat_eq h (by omega)
  rw [mapRuns] at hcode
  split at hcode
  · rename_i r hfound
    have hmem := List.mem_of_find?_eq_some hfound
    have hrange := List.find?_some hfound
    simp only [Bool.and_eq_true, decide_eq_true_eq] at hrange
    have hoffset := offset_of_mem_lowerRuns hletter r hmem (by omega) (by omega)
    right
    apply Char.toNat_inj.mp
    omega
  · left
    exact Char.toNat_inj.mp hcode

/-! ## Words -/

/-- The first letter of a small form comes from the first character. -/
theorem lowerChars_eq_cons {before rest word : List Char} {c letter : Char}
    (hletter : letter ∈ trueLetters) (h : lowerChars before (c :: rest) = letter :: word) :
    (c = letter ∨ c = letter.toUpper) ∧ lowerChars (c :: before) rest = word := by
  obtain ⟨_, hi, _, _, hfinal, hsigma⟩ := letter_facts hletter
  rw [lowerChars] at h
  split at h
  · split at h
    · exact absurd (List.cons.inj h).1 hfinal.symm
    · exact absurd (List.cons.inj h).1 hsigma.symm
  · rw [lowerOf] at h
    split at h
    · exact absurd (List.cons.inj h).1 hi.symm
    · obtain ⟨hfirst, hrest⟩ := List.cons.inj h
      exact ⟨eq_or_eq_toUpper hletter hfirst, hrest⟩

/-- A letter, small or capital, becomes small. -/
theorem lowerChars_letter {before rest : List Char} {c letter : Char}
    (hletter : letter ∈ trueLetters) (hc : c = letter ∨ c = letter.toUpper) :
    lowerChars before (c :: rest) = letter :: lowerChars (c :: before) rest := by
  obtain ⟨_, _, hsmall, hcapital, _, _⟩ := letter_facts hletter
  obtain ⟨hlower, hupper⟩ := lowerOf_letter hletter
  have hne : c ≠ 'Σ' := by
    rcases hc with rfl | rfl
    · exact hsmall
    · exact hcapital
  have himage : lowerOf c = [letter] := by
    rcases hc with rfl | rfl
    · exact hlower
    · exact hupper
  rw [lowerChars, if_neg hne, himage]
  rfl

/-- The texts whose small form is a word of the letters are those that spell the word. -/
theorem lowerChars_eq_iff {word : List Char} (hword : ∀ letter ∈ word, letter ∈ trueLetters)
    (before cs : List Char) : lowerChars before cs = word ↔ SpellsWord word cs := by
  induction word generalizing before cs with
  | nil =>
    cases cs with
    | nil => exact iff_of_true rfl .nil
    | cons c rest =>
      refine iff_of_false (fun h => ?_) nofun
      have himage := congrArg List.length h
      rw [lowerChars, List.length_append] at himage
      split at himage
      · split at himage <;> simp at himage
      · rw [lowerOf] at himage
        split at himage <;> simp at himage
  | cons letter word ih =>
    have hletter := hword letter List.mem_cons_self
    have hrest := ih fun l hl => hword l (List.mem_cons_of_mem letter hl)
    cases cs with
    | nil => exact iff_of_false (by simp [lowerChars]) nofun
    | cons c rest =>
      constructor
      · intro h
        obtain ⟨hc, htail⟩ := lowerChars_eq_cons hletter h
        exact .cons hc ((hrest _ _).mp htail)
      · intro h
        obtain ⟨hc, htail⟩ := List.forall₂_cons.mp h
        rw [lowerChars_letter hletter hc, (hrest _ _).mpr htail]

end Text

/-- The texts that are true are the word `true` in any letter case. -/
theorem PrimitiveKind.isTrueWord_iff (text : String) :
    isTrueWord text = true ↔ Text.SpellsWord "true".toList text.toList := by
  rw [isTrueWord, beq_iff_eq, Text.toLower, ← String.toList_inj, String.toList_ofList]
  exact Text.lowerChars_eq_iff (fun _ h => h) [] text.toList

end WarehouseRows
