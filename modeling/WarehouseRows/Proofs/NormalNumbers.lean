import WarehouseRows.Proofs.Rounding

/-!
# Numbers in normal form

A finite binary64 number is in normal form if its significand has all 53 bits, or its exponent is
the least one. Rounding finds this form: a fraction that is such a number already is rounded to
it, so the whole numbers are the integers that they were made from. A fraction that is at least an
integer of 53 bits is rounded to a number that is.

## Main definitions

* `Double.IsNormal`: the significands and exponents of numbers in normal form.
* `Double.InNormalForm`: the numbers that operations give.
-/

namespace WarehouseRows.Double

/-- Whether a significand and an exponent are those of a number in normal form. -/
structure IsNormal (significand : Nat) (exponent : Int) : Prop where
  lt : significand < 9007199254740992
  full : 4503599627370496 ≤ significand ∨ exponent = -1074
  least : -1074 ≤ exponent
  most : exponent ≤ 971

/-- Whether a number is in normal form, if it is finite. -/
def InNormalForm : Double → Prop
  | .finite _ m e => IsNormal m e
  | .nan | .infinity _ => True

/-! ## Rounding -/

/-- Without a carry and without an overflow, the rounded significand stands beside the exponent
of the rounding. -/
theorem nearest_eq {num den : Nat} (hnum : num ≠ 0)
    (hcarry : roundedSignificand num den ≠ 9007199254740992)
    (hmost : roundingExponent num den ≤ 971) :
    binary64.nearest num den = some (roundedSignificand num den, roundingExponent num den) := by
  rw [nearest_of_no_carry hnum hcarry, if_neg (Int.not_lt.mpr hmost)]

/-- Every fraction is rounded to a number in normal form. -/
theorem inNormalForm_ofRatio (negative : Bool) (num : Nat) {den : Nat} (hden : den ≠ 0) :
    (ofRatio negative num den).InNormalForm := by
  by_cases hnum : num = 0
  · subst hnum
    exact ⟨by decide, Or.inr rfl, by decide, by decide⟩
  have hle := roundedSignificand_le hnum hden
  have hleast : -1074 ≤ roundingExponent num den := by
    rw [roundingExponent]
    omega
  have hfull : 4503599627370496 ≤ roundedSignificand num den ∨
      roundingExponent num den = -1074 := by
    by_cases hexp : roundingExponent num den = -1074
    · exact Or.inr hexp
    · left
      have hlow : roundingExponent num den + (52 : Nat) ≤ floorLog2 num den := by
        rw [roundingExponent] at hexp ⊢
        omega
      rw [le_floorLog2_iff hnum hden, scaleRatio_add_le_iff] at hlow
      exact le_roundHalfEven (scaleRatio_pos (Nat.pos_of_ne_zero hden) _ _) hlow
  rw [ofRatio]
  by_cases hcarry : roundedSignificand num den = 9007199254740992
  · rw [nearest_of_carry hnum hcarry]
    split
    · exact trivial
    · rename_i hsome
      split at hsome
      · exact absurd hsome (by simp)
      · obtain ⟨rfl, rfl⟩ := Prod.mk.inj (Option.some.inj hsome)
        exact ⟨by decide, Or.inl (by decide), by omega, by omega⟩
  · rw [nearest_of_no_carry hnum hcarry]
    split
    · exact trivial
    · rename_i hsome
      split at hsome
      · exact absurd hsome (by simp)
      · obtain ⟨rfl, rfl⟩ := Prod.mk.inj (Option.some.inj hsome)
        exact ⟨by omega, hfull, hleast, by omega⟩

theorem inNormalForm_ofInt (n : Int) : (ofInt n).InNormalForm :=
  inNormalForm_ofRatio _ _ Nat.one_ne_zero

/-- A fraction that is a whole number of units is rounded to this number. -/
theorem roundHalfEven_mul (m : Nat) {den : Nat} (hden : 0 < den) :
    roundHalfEven (m * den) den = m :=
  Nat.le_antisymm (roundHalfEven_le (Nat.le_refl _)) (le_roundHalfEven hden (Nat.le_refl _))

/-- Reducing a fraction does not change which integer is nearest to it. -/
theorem roundHalfEven_mul_right (num den : Nat) {k : Nat} (hk : 0 < k) :
    roundHalfEven (num * k) (den * k) = roundHalfEven num den := by
  have hless : 2 * (num % den * k) < den * k ↔ 2 * (num % den) < den := by
    rw [← Nat.mul_assoc]
    exact Nat.mul_lt_mul_right hk
  have hmore : den * k < 2 * (num % den * k) ↔ den < 2 * (num % den) := by
    rw [← Nat.mul_assoc]
    exact Nat.mul_lt_mul_right hk
  simp only [roundHalfEven, Nat.mul_div_mul_right num den hk, Nat.mul_mod_mul_right, hless, hmore]

theorem scaleRatio_mul_right (num den k : Nat) (e : Int) :
    scaleRatio (num * k) (den * k) e =
      ((scaleRatio num den e).1 * k, (scaleRatio num den e).2 * k) := by
  simp only [scaleRatio]
  split
  · rw [Nat.mul_right_comm]
  · rw [Nat.mul_right_comm]

theorem floorLog2_mul_right {num den k : Nat} (hnum : num ≠ 0) (hden : den ≠ 0) (hk : 0 < k) :
    floorLog2 (num * k) (den * k) = floorLog2 num den := by
  have hle (e : Int) : e ≤ floorLog2 (num * k) (den * k) ↔ e ≤ floorLog2 num den := by
    rw [le_floorLog2_iff (Nat.mul_ne_zero hnum (Nat.ne_of_gt hk))
      (Nat.mul_ne_zero hden (Nat.ne_of_gt hk)), le_floorLog2_iff hnum hden, scaleRatio_mul_right]
    exact Nat.mul_le_mul_right_iff hk
  exact Int.le_antisymm ((hle _).mp (Int.le_refl _)) ((hle _).mpr (Int.le_refl _))

/-- Reducing a fraction does not change the number that it is rounded to. -/
theorem nearest_mul_right (num : Nat) {den k : Nat} (hden : den ≠ 0) (hk : 0 < k) :
    binary64.nearest (num * k) (den * k) = binary64.nearest num den := by
  by_cases hnum : num = 0
  · subst hnum
    rw [Nat.zero_mul]
    rfl
  · have hexp : roundingExponent (num * k) (den * k) = roundingExponent num den := by
      rw [roundingExponent, roundingExponent, floorLog2_mul_right hnum hden hk]
    have hrounded : roundedSignificand (num * k) (den * k) = roundedSignificand num den := by
      simp only [roundedSignificand, hexp, scaleRatio_mul_right, roundHalfEven_mul_right _ _ hk]
    have hproduct : num * k ≠ 0 := Nat.mul_ne_zero hnum (Nat.ne_of_gt hk)
    rw [nearest_eq_ite hproduct, nearest_eq_ite hnum, hexp, hrounded]

/-- A fraction whose significand is full in units of `2 ^ -u` is rounded to a number of them. -/
theorem nearest_of_units {num den u : Nat} (hden : den ≠ 0) (hu : u ≤ 1074)
    (hlow : 4503599627370496 * den ≤ num * 2 ^ u) (hhigh : num * 2 ^ u < 9007199254740992 * den)
    (hcarry : roundHalfEven (num * 2 ^ u) den ≠ 9007199254740992) :
    binary64.nearest num den = some (roundHalfEven (num * 2 ^ u) den, -(u : Int)) := by
  have hnum : num ≠ 0 := by
    rintro rfl
    omega
  have hunits : scaleRatio num den (-(u : Int)) = (num * 2 ^ u, den) := by
    rw [scaleRatio_of_nonpos num den (by omega), Int.neg_neg, Int.toNat_natCast]
    rfl
  have hfull : -(u : Int) + (52 : Nat) ≤ floorLog2 num den := by
    rw [le_floorLog2_iff hnum hden, scaleRatio_add_le_iff, hunits]
    exact hlow
  have hbelow : ¬ -(u : Int) + (53 : Nat) ≤ floorLog2 num den := by
    rw [le_floorLog2_iff hnum hden, scaleRatio_add_le_iff, hunits, Nat.not_le]
    exact hhigh
  have hexp : roundingExponent num den = -(u : Int) := by
    rw [roundingExponent]
    omega
  have hrounded : roundedSignificand num den = roundHalfEven (num * 2 ^ u) den := by
    simp only [roundedSignificand, hexp, hunits]
  rw [nearest_eq hnum (by rwa [hrounded]) (by omega), hrounded, hexp]

/-- A fraction that is a number with a full significand is rounded to that number. -/
theorem nearest_of_full {num den m : Nat} {e : Int} (hden : den ≠ 0) (h : IsNormal m e)
    (hfull : 4503599627370496 ≤ m)
    (hunits : (scaleRatio num den e).1 = m * (scaleRatio num den e).2) :
    binary64.nearest num den = some (m, e) := by
  have hpos := scaleRatio_pos (Nat.pos_of_ne_zero hden) num e
  have hnum : num ≠ 0 := by
    rintro rfl
    have hzero : (scaleRatio 0 den e).1 = 0 := by
      rw [scaleRatio]
      split <;> simp
    rw [hzero] at hunits
    have := Nat.mul_pos (by omega : 0 < m) hpos
    omega
  -- the fraction has 53 bits in front of the units of the exponent
  have hlow : e + (52 : Nat) ≤ floorLog2 num den := by
    rw [le_floorLog2_iff hnum hden, scaleRatio_add_le_iff, hunits]
    exact Nat.mul_le_mul_right _ hfull
  have hhigh : ¬ e + (53 : Nat) ≤ floorLog2 num den := by
    rw [le_floorLog2_iff hnum hden, scaleRatio_add_le_iff, hunits, Nat.not_le]
    exact Nat.mul_lt_mul_of_pos_right h.lt hpos
  have hexp : roundingExponent num den = e := by
    have := h.least
    rw [roundingExponent]
    omega
  have hrounded : roundedSignificand num den = m := by
    simp only [roundedSignificand, hexp, hunits]
    exact roundHalfEven_mul m hpos
  have hlt := h.lt
  rw [nearest_eq hnum (by omega) (by have := h.most; omega), hrounded, hexp]

/-- A fraction that is at least an integer of 53 bits is rounded to a number that is, or to
infinity. -/
theorem le_integerPart_nearest {bound num den m : Nat} {e : Int}
    (hhigh : bound < 9007199254740992) (hden : den ≠ 0) (h : bound * den ≤ num)
    (hnearest : binary64.nearest num den = some (m, e)) : bound ≤ integerPart m e := by
  by_cases hnum : num = 0
  · have hbound : bound = 0 := by
      subst hnum
      exact (Nat.mul_eq_zero.mp (Nat.le_zero.mp h)).resolve_right hden
    omega
  rcases nearest_cases hnum hden with ⟨hnone, _⟩ | ⟨m', e', hsome, _, hpart⟩
  · exact absurd (hnone.symm.trans hnearest) (by simp)
  obtain ⟨rfl, rfl⟩ := Prod.mk.inj (Option.some.inj (hsome.symm.trans hnearest))
  rw [hpart]
  by_cases hexp : roundingExponent num den ≤ 0
  · rw [integerPart_of_nonpos _ hexp]
    apply (Nat.le_div_iff_mul_le (Nat.two_pow_pos _)).mpr
    rw [roundedSignificand, scaleRatio_of_nonpos num den hexp]
    apply le_roundHalfEven (Nat.pos_of_ne_zero hden)
    rw [Nat.mul_right_comm]
    exact Nat.mul_le_mul_right _ h
  -- above the integers of 53 bits the significand alone is large enough
  · have hfull : 4503599627370496 ≤ roundedSignificand num den := by
      have hle : roundingExponent num den + (52 : Nat) ≤ floorLog2 num den := by
        rw [roundingExponent] at hexp ⊢
        omega
      rw [le_floorLog2_iff hnum hden, scaleRatio_add_le_iff] at hle
      exact le_roundHalfEven (scaleRatio_pos (Nat.pos_of_ne_zero hden) _ _) hle
    have htwo : 2 ≤ Nat.pow 2 (roundingExponent num den).toNat :=
      Nat.le_self_pow (by omega) 2
    have := Nat.mul_le_mul hfull htwo
    rw [integerPart_of_nonneg _ (by omega)]
    omega

/-! ## Whole numbers -/

/-- A finite number is whole if its fraction is the integer part. -/
theorem whole?_eq_some {negative : Bool} {m : Nat} {e : Int} {n : Int} :
    (Double.finite negative m e).whole? = some n ↔
      (ratio m e).1 = integerPart m e * (ratio m e).2 ∧ n = signed negative (integerPart m e) := by
  have hparts := Nat.div_add_mod (ratio m e).1 (ratio m e).2
  rw [Nat.mul_comm] at hparts
  simp only [whole?, integerPart]
  split
  · rename_i hmod
    rw [hmod] at hparts
    simp only [Option.some.injEq]
    constructor
    · intro h
      exact ⟨by omega, h.symm⟩
    · rintro ⟨_, rfl⟩
      rfl
  · constructor
    · intro h
      exact absurd h (by simp)
    · rintro ⟨h, _⟩
      omega

/-- An integer of more than 53 bits is rounded to one of at least 53, with the same sign. -/
theorem exists_signed_of_whole? {n : Nat} (hn : 9007199254740992 ≤ n) {negative : Bool} {k : Int}
    (h : (ofRatio negative n 1).whole? = some k) :
    ∃ p, k = signed negative p ∧ 9007199254740991 ≤ p := by
  rw [ofRatio] at h
  cases hnearest : binary64.nearest n 1 with
  | none =>
    rw [hnearest] at h
    exact absurd h (by simp [whole?])
  | some number =>
    obtain ⟨m, e⟩ := number
    rw [hnearest] at h
    exact ⟨integerPart m e, (whole?_eq_some.mp h).2,
      le_integerPart_nearest (by decide) Nat.one_ne_zero (by omega) hnearest⟩

/-- In the units of its exponent, a whole number is its significand. -/
theorem scaleRatio_integerPart {m : Nat} {e : Int}
    (h : (ratio m e).1 = integerPart m e * (ratio m e).2) :
    (scaleRatio (integerPart m e) 1 e).1 = m * (scaleRatio (integerPart m e) 1 e).2 := by
  rw [ratio] at h
  rw [scaleRatio]
  by_cases he : 0 ≤ e
  · rw [if_pos he] at h ⊢
    simpa using h.symm
  · rw [if_neg he] at h ⊢
    simpa using h.symm

/-- Far behind the point, the bits of a significand make up no integer. -/
theorem integerPart_eq_zero {m k : Nat} (hm : m < 9007199254740992) (hk : 53 ≤ k) :
    integerPart m (-(k : Int)) = 0 := by
  have hexp : (-(-(k : Int))).toNat = k := by omega
  have hpow : 2 ^ 53 ≤ 2 ^ k := Nat.pow_le_pow_right Nat.two_pos hk
  rw [integerPart_of_nonpos _ (by omega), hexp]
  exact Nat.div_eq_of_lt (Nat.lt_of_lt_of_le hm hpow)

/-- A whole number in normal form is the number that the integer is, if it is not zero. -/
theorem eq_ofInt {x : Double} (hx : x.InNormalForm) {n : Int} (h : x.whole? = some n)
    (hn : n ≠ 0) : x = ofInt n := by
  cases x with
  | nan | infinity => exact absurd h (by simp [whole?])
  | finite negative m e =>
    have hnormal : IsNormal m e := hx
    obtain ⟨hratio, rfl⟩ := whole?_eq_some.mp h
    have hpos : integerPart m e ≠ 0 := by
      rintro hzero
      rw [hzero] at hn
      exact hn (by cases negative <;> rfl)
    have hfull : 4503599627370496 ≤ m := by
      refine hnormal.full.resolve_right ?_
      rintro rfl
      -- with the least exponent the integer part of every number is zero
      refine hpos ?_
      exact integerPart_eq_zero hnormal.lt (by decide : (53 : Nat) ≤ 1074)
    have hnearest := nearest_of_full (Nat.one_ne_zero) hnormal hfull
      (scaleRatio_integerPart hratio)
    rw [ofInt_signed hpos, ofRatio, hnearest]

/-- A whole number is stored as a key as the number that the integer is. -/
theorem asKey_of_whole {x : Double} (hx : x.InNormalForm) {n : Int} (h : x.whole? = some n) :
    (if x.isZero then zero else x) = ofInt n := by
  by_cases hzero : x.isZero = true
  · obtain rfl : 0 = n := Option.some.inj ((whole?_of_isZero hzero).symm.trans h)
    rw [if_pos hzero]
    rfl
  · rw [if_neg hzero]
    refine eq_ofInt hx h ?_
    rintro rfl
    cases x with
    | nan | infinity => exact absurd h (by simp [whole?])
    | finite negative m e =>
      obtain ⟨hratio, hsigned⟩ := whole?_eq_some.mp h
      have hpart : integerPart m e = 0 := by
        have := natAbs_signed negative (integerPart m e)
        omega
      rw [hpart, Nat.zero_mul, ratio] at hratio
      have hm : m = 0 := by
        split at hratio
        · exact (Nat.mul_eq_zero.mp hratio).resolve_right (Nat.ne_of_gt (Nat.two_pow_pos _))
        · exact hratio
      subst hm
      exact hzero rfl

end WarehouseRows.Double
