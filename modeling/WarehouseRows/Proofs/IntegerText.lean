import WarehouseRows.Proofs.NormalNumbers
import WarehouseRows.Proofs.NumberLiterals

/-!
# Integers read from text

A narrow integer goes through binary64 and a 64-bit one is wrapped to its bits. Neither changes
which integers are accepted: a literal of no more than 53 bits denotes its integer exactly, a longer
one denotes a number that is too large for a narrow width, or none; and wrapping leaves alone just
the integers of 64 bits.

## Main results

* `PrimitiveKind.parseBounded_literal`, `PrimitiveKind.parseLong_literal`: what is read from an
  integer literal.
-/

namespace WarehouseRows

namespace Text

/-- The text of an integer is a literal. -/
theorem toString_eq_literal (n : Int) :
    toString n = String.ofList (signChars (decide (n < 0)) ++ (Nat.repr n.natAbs).toList) := by
  apply String.toList_inj.mp
  rw [toList_toString, String.toList_ofList]

end Text

namespace Double

open Text

/-! ## Numbers of integer literals -/

theorem whole?_ofRatio_one {n : Nat} (hn : n < 9007199254740992) (negative : Bool) :
    (ofRatio negative n 1).whole? = some (signed negative n) := by
  by_cases hzero : n = 0
  · subst hzero
    rw [whole?_of_isZero rfl]
    cases negative <;> rfl
  · rw [← ofInt_signed hzero]
    exact whole?_ofInt (by rwa [natAbs_signed])

/-- Digits without a point denote the number nearest to their integer, unless there are so many of
them that the number is infinite. -/
theorem ofDecimal_integer (negative : Bool) (n : Nat) :
    ofDecimal negative n 0 = ofRatio negative n 1 ∨
      (9007199254740992 ≤ n ∧ ofDecimal negative n 0 = .infinity negative) := by
  by_cases hzero : n = 0
  · subst hzero
    exact Or.inl rfl
  by_cases hmany : 310 < digitCount n
  · right
    have hpow : 10 ^ 16 ≤ n := pow_le_of_lt_digitCount hzero (by omega)
    refine ⟨by omega, ?_⟩
    rw [ofDecimal, if_neg hzero, if_pos (by omega)]
  · left
    rw [ofDecimal, if_neg hzero, if_neg (by omega), if_neg (by omega), if_pos (Int.le_refl 0)]
    simp

theorem ofDecimal_integer_of_lt {n : Nat} (hn : n < 9007199254740992) (negative : Bool) :
    ofDecimal negative n 0 = ofRatio negative n 1 := by
  rcases ofDecimal_integer negative n with h | ⟨hlarge, _⟩
  · exact h
  · omega

/-- An integer of more than 53 bits denotes a number that is no smaller integer. -/
theorem le_natAbs_of_large {n : Nat} (hn : 9007199254740992 ≤ n) {negative : Bool} {k : Int}
    (h : (ofDecimal negative n 0).whole? = some k) : 9007199254740991 ≤ k.natAbs := by
  rcases ofDecimal_integer negative n with heq | ⟨_, heq⟩
  · rw [heq] at h
    obtain ⟨p, rfl, hp⟩ := exists_signed_of_whole? hn h
    rwa [natAbs_signed]
  · rw [heq] at h
    exact absurd h (by simp [whole?])

end Double

namespace PrimitiveKind

open Text

/-! ## Widths -/

/-- An integer has a form of a width just if it lies between the bounds of the width. -/
theorem fits_iff {bits : Nat} {n : Int} :
    fits bits n = true ↔
      -((2 ^ (bits - 1) : Nat) : Int) ≤ n ∧ n ≤ ((2 ^ (bits - 1) : Nat) : Int) - 1 := by
  simp only [fits, Nat.pow_eq, Bool.and_eq_true, decide_eq_true_eq]
  omega

theorem not_fits_of_le {bits : Nat} {n : Int} (hb : bits ≤ 32) (h : 4503599627370496 ≤ n.natAbs) :
    fits bits n = false := by
  have hpow : 2 ^ (bits - 1) ≤ 2 ^ 31 := Nat.pow_le_pow_right (by decide) (by omega)
  rw [Bool.eq_false_iff]
  intro hfits
  simp only [fits, Nat.pow_eq, Bool.and_eq_true, decide_eq_true_eq] at hfits
  omega

/-- Wrapping to 64 bits leaves alone just the integers of this width. -/
theorem bmod_eq_iff_fits (n : Int) : n.bmod (Nat.pow 2 64) = n ↔ fits 64 n = true := by
  have hwidth : Nat.pow 2 64 = 18446744073709551616 := rfl
  have hhalf : ((Nat.pow 2 (64 - 1) : Nat) : Int) = 9223372036854775808 := rfl
  simp only [fits, hhalf, Bool.and_eq_true, decide_eq_true_eq, hwidth, Int.bmod]
  omega

/-! ## Literals -/

/-- An integer literal is an optional sign and a run of digits. -/
theorem integerLiteral?_eq_some {cs : List Char} {negative : Bool} {ds : List Char} :
    integerLiteral? cs = some (negative, ds) ↔
      ∃ s, IsSign s negative ∧ IsRun ds ∧ cs = s ++ ds := by
  constructor
  · intro h
    obtain ⟨s, hs, hcs⟩ := exists_isSign cs
    simp only [integerLiteral?] at h
    split at h
    · exact absurd h (by simp)
    · rename_i hrun
      obtain ⟨rfl, rfl⟩ := Prod.mk.inj (Option.some.inj h)
      simp only [Bool.or_eq_true, List.isEmpty_iff, Bool.not_eq_true', not_or, Bool.not_eq_false,
        List.all_eq_true] at hrun
      exact ⟨s, hs, ⟨hrun.1, hrun.2⟩, hcs⟩
  · rintro ⟨s, hs, hd, rfl⟩
    have hsplit := hs.splitSign_append (hd.unsigned_append [])
    rw [List.append_nil] at hsplit
    simp only [integerLiteral?, hsplit, List.isEmpty_eq_false_iff.mpr hd.ne_nil,
      List.all_eq_true.mpr hd.digits]
    rfl

/-- Text that is no integer literal is no integer of any width. -/
theorem parseBounded_of_none {text : String} (h : integerLiteral? text.toList = none)
    (kind : PrimitiveKind) (bits : Nat) :
    parseBounded kind bits text = .error (kind.invalid text) := by
  simp only [parseBounded, h]
  rfl

theorem parseLong_of_none {text : String} (h : integerLiteral? text.toList = none) :
    parseLong text = .error (invalid .int64 text) := by
  simp only [parseLong, h]

section

variable {s ds : List Char} {negative : Bool}

/-- A literal is read at a narrow width just if its integer has the width, and then as the number
that the integer is. -/
theorem parseBounded_literal (hs : IsSign s negative) (hd : IsRun ds) (kind : PrimitiveKind)
    {bits : Nat} (hb : bits ≤ 32) :
    parseBounded kind bits (String.ofList (s ++ ds)) =
      if fits bits (Double.signed negative (digitsValue ds)) = true then
        .ok (.number (Double.ofRatio negative (digitsValue ds) 1))
      else .error (kind.invalid (String.ofList (s ++ ds))) := by
  have hliteral : integerLiteral? (String.ofList (s ++ ds)).toList = some (negative, ds) := by
    rw [String.toList_ofList]
    exact integerLiteral?_eq_some.mpr ⟨s, hs, hd, rfl⟩
  have htext : Double.ofText (String.ofList (s ++ ds)) =
      Double.ofDecimal negative (digitsValue ds) 0 := by
    have hnumber := Double.ofText_literal hs (.whole hd) .none
    simpa using hnumber
  simp only [parseBounded, hliteral, Option.isSome_some, if_true, htext]
  by_cases hsmall : digitsValue ds < 9007199254740992
  · rw [Double.ofDecimal_integer_of_lt hsmall, Double.whole?_ofRatio_one hsmall]
  -- Too many bits: the number is no integer, or one that is as much too large as the literal.
  · have hlarge := Nat.not_lt.mp hsmall
    have hrefused := @not_fits_of_le bits (Double.signed negative (digitsValue ds)) hb
      (by rw [Double.natAbs_signed]; omega)
    rw [if_neg (by simp [hrefused])]
    split
    · rename_i n hwhole
      have hn := Double.le_natAbs_of_large hlarge hwhole
      rw [not_fits_of_le hb (by omega), if_neg Bool.false_ne_true]
    · rfl

/-- A literal is read at the greatest width just if its integer has the width. -/
theorem parseLong_literal (hs : IsSign s negative) (hd : IsRun ds) :
    parseLong (String.ofList (s ++ ds)) =
      if fits 64 (Double.signed negative (digitsValue ds)) = true then
        .ok (.integer (Double.signed negative (digitsValue ds)))
      else .error (invalid .int64 (String.ofList (s ++ ds))) := by
  have hliteral : integerLiteral? (String.ofList (s ++ ds)).toList = some (negative, ds) := by
    rw [String.toList_ofList]
    exact integerLiteral?_eq_some.mpr ⟨s, hs, hd, rfl⟩
  simp only [parseLong, hliteral, bmod_eq_iff_fits]

end

/-! ## Texts of integers -/

/-- The text of an integer is read at a narrow width just if the integer has the width. -/
theorem parseBounded_toString {kind : PrimitiveKind} {bits : Nat} (hb : bits ≤ 32) (n : Int) :
    parseBounded kind bits (toString n) =
      if fits bits n = true then .ok (.number (Double.ofInt n))
      else .error (kind.invalid (toString n)) := by
  have hread :=
    parseBounded_literal (isSign_signChars (decide (n < 0))) (isRun_repr n.natAbs) kind hb
  rw [← toString_eq_literal, digitsValue_repr, Double.signed_natAbs] at hread
  exact hread

/-- The text of an integer is read at the greatest width just if the integer has the width. -/
theorem parseLong_toString (n : Int) :
    parseLong (toString n) =
      if fits 64 n = true then .ok (.integer n) else .error (invalid .int64 (toString n)) := by
  have hread := parseLong_literal (isSign_signChars (decide (n < 0))) (isRun_repr n.natAbs)
  rw [← toString_eq_literal, digitsValue_repr, Double.signed_natAbs] at hread
  exact hread

theorem parseBounded_of_fits {kind : PrimitiveKind} {bits : Nat} {n : Int} (hb : bits ≤ 32)
    (h : fits bits n = true) :
    parseBounded kind bits (toString n) = .ok (.number (Double.ofInt n)) := by
  rw [parseBounded_toString hb, if_pos h]

theorem parseLong_of_fits {n : Int} (h : fits 64 n = true) :
    parseLong (toString n) = .ok (.integer n) := by
  rw [parseLong_toString, if_pos h]

end PrimitiveKind

end WarehouseRows
