import WarehouseRows.Decimal
import WarehouseRows.Proofs.NumberLiterals
import WarehouseRows.Proofs.Whole

/-!
# Literals of decimals

A decimal is written like any other number, with digits, a point and an exponent that may each be
missing as long as one digit is left. Blanks around it do not count. The reader takes exactly these
texts; each has its digits on both sides of the point and its exponent in one way only.

## Main definitions

* `Decimal.IsLiteral`: the grammar.
* `Decimal.Spells`: texts of the grammar with blanks around them.

## Main results

* `Decimal.readLiteral?_eq_some`: the texts that are read, and what is read.
* `Decimal.parse_of_hasExactScale`: the decimal of a literal.
-/

namespace WarehouseRows.Decimal

open Text Double

/-! ## The grammar -/

/-- Whether characters are a sign, digits with a point and an exponent, all of them optional but for
one digit. -/
inductive IsLiteral : List Char → Literal → Prop
  | mk {s m x whole fraction : List Char} {negative : Bool} {e : Int} (hs : IsSign s negative)
    (hm : IsMantissa m whole fraction) (hx : IsExponent x e) :
    IsLiteral (s ++ (m ++ x)) ⟨negative, whole, fraction, e⟩

theorem IsLiteral.isBlank {cs : List Char} {l : Literal} (h : IsLiteral cs l) :
    ∀ c ∈ cs, isBlank c = false := by
  cases h with
  | mk hs hm hx => exact isBlank_literal hs hm hx

/-- Whether text is a literal with blanks around it. -/
def Spells (cs : List Char) (l : Literal) : Prop :=
  ∃ before body after, (∀ c ∈ before, isBlank c = true) ∧ (∀ c ∈ after, isBlank c = true) ∧
    cs = before ++ (body ++ after) ∧ IsLiteral body l

theorem IsLiteral.spells {cs : List Char} {l : Literal} (h : IsLiteral cs l) : Spells cs l :=
  ⟨[], cs, [], by simp, by simp, by simp, h⟩

/-- Exactly the texts of the grammar are read. -/
theorem readLiteral?_eq_some {cs : List Char} {l : Literal} :
    readLiteral? cs = some l ↔ Spells cs l := by
  constructor
  · intro h
    obtain ⟨before, after, hbefore, hafter, hcs⟩ := exists_blanks_around cs
    refine ⟨before, trimChars cs, after, hbefore, hafter, hcs, ?_⟩
    simp only [readLiteral?] at h
    obtain ⟨s, hs, hsign⟩ := exists_isSign (trimChars cs)
    rw [hsign]
    generalize splitSign (trimChars cs) = signed at *
    split at h
    · exact absurd h (by simp)
    rename_i hsome
    split at h
    · rename_i hend
      obtain rfl := Option.some.inj h
      obtain ⟨m, hm, hbody⟩ := exists_isMantissa signed.2 hsome
      have hx := readExponent_eq_nil.mp (Prod.ext rfl (List.isEmpty_iff.mp hend))
      have hl := IsLiteral.mk hs hm hx
      rwa [← hbody] at hl
    · exact absurd h (by simp)
  · rintro ⟨before, body, after, hbefore, hafter, rfl, hl⟩
    have htrim := trimChars_append hbefore hafter hl.isBlank
    cases hl with
    | mk hs hm hx =>
      obtain ⟨behind, hwhole, hfraction, hexponent, hsome⟩ := exists_splitDigits hm hx
      simp only [readLiteral?, htrim, hs.splitSign_append (hm.unsigned_append _), hwhole,
        hfraction, hexponent, hsome]
      rfl

/-! ## Decimals of literals -/

/-- A literal is read as the decimal of its digits. -/
theorem parse_of_spells {text : String} {l : Literal} (h : Spells text.toList l) :
    parse text = .ok ⟨signed l.negative (digitsValue (l.whole ++ l.fraction)),
      Scale.ofText l.fraction.length l.exponent⟩ := by
  simp only [parse, readLiteral?_eq_some.mpr h]

/-- All other texts are refused. -/
theorem exists_parse_error {text : String} (h : ¬∃ l, Spells text.toList l) :
    ∃ e, parse text = .error e ∧ e.code = .invalidValue := by
  simp only [← readLiteral?_eq_some, not_exists] at h
  rw [parse, Option.eq_none_iff_forall_ne_some.mpr h]
  exact ⟨_, rfl, rfl⟩

/-- Whether the numbers that make up the scale of a literal are exact in binary64. -/
def Literal.HasExactScale (l : Literal) : Prop :=
  l.exponent.natAbs + l.fraction.length < 2 ^ 53

instance (l : Literal) : Decidable l.HasExactScale :=
  inferInstanceAs (Decidable (_ < _))

/-- The scale of a literal is the count of its digits behind the point less its exponent. -/
theorem parse_of_hasExactScale {text : String} {l : Literal} (h : Spells text.toList l)
    (hexact : l.HasExactScale) :
    parse text = .ok ⟨signed l.negative (digitsValue (l.whole ++ l.fraction)),
      .ofInt (l.fraction.length - l.exponent)⟩ := by
  unfold Literal.HasExactScale at hexact
  have hexponent : (Double.ofInt l.exponent).whole? = some l.exponent :=
    Double.whole?_ofInt (by omega)
  have hplaces : Whole.ofDouble? (Double.ofInt (l.fraction.length - l.exponent)) =
      some (.ofInt (l.fraction.length - l.exponent)) := Double.ofDouble?_ofInt (by omega)
  have hscale : Scale.ofText l.fraction.length l.exponent =
      .ofInt (l.fraction.length - l.exponent) := by
    simp only [Scale.ofText, hexponent, hplaces]
    rfl
  rw [parse_of_spells h, hscale]

end WarehouseRows.Decimal
