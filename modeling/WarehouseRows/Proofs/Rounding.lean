import WarehouseRows.Number.Reading
import WarehouseRows.Proofs.Whole

/-!
# Rounding near integers of 53 bits

From 2 ^ 52 to 2 ^ 53 the binary64 numbers are the integers. So the integer part of a rounded
fraction tells on which side of such an integer the fraction was, if it was not within a half
above it: at most the integer, and the number is at most the integer; more than a half above it,
and the number is greater, or infinite.

The exponent of the rounded number is that of the fraction, which `floorLog2` finds from the
lengths of numerator and denominator.

## Main results

* `Double.le_floorLog2_iff`: what `floorLog2` finds.
* `Double.integerPart_nearest_le`, `Double.lt_integerPart_nearest`: the two sides of an integer.
* `Double.significand_lt_of_ofText`: the number that text denotes has at most 53 bits.
-/

namespace WarehouseRows.Double

/-! ## Scaled fractions -/

theorem scaleRatio_pos {den : Nat} (hden : 0 < den) (num : Nat) (e : Int) :
    0 < (scaleRatio num den e).2 := by
  rw [scaleRatio]
  split
  · exact Nat.mul_pos hden (Nat.two_pow_pos _)
  · exact hden

theorem scaleRatio_of_nonpos (num den : Nat) {e : Int} (h : e ≤ 0) :
    scaleRatio num den e = (num * Nat.pow 2 (-e).toNat, den) := by
  by_cases hzero : e = 0
  · simp [scaleRatio, hzero]
  · rw [scaleRatio, if_neg (by omega)]

/-- One more in the exponent doubles the denominator, or halves the numerator. -/
theorem exists_scaleRatio_succ (num den : Nat) (e : Int) :
    ∃ p q, (scaleRatio num den e = (p, q) ∧ scaleRatio num den (e + 1) = (p, 2 * q)) ∨
      (scaleRatio num den e = (2 * p, q) ∧ scaleRatio num den (e + 1) = (p, q)) := by
  by_cases he : 0 ≤ e
  · refine ⟨num, den * Nat.pow 2 e.toNat, Or.inl ⟨if_pos he, ?_⟩⟩
    have hexp : (e + 1).toNat = e.toNat + 1 := by omega
    rw [scaleRatio, if_pos (by omega), hexp]
    simp only [Nat.pow_eq, Nat.pow_succ, Prod.mk.injEq, true_and]
    rw [← Nat.mul_assoc, Nat.mul_comm]
  · have hexp : (-e).toNat = (-(e + 1)).toNat + 1 := by omega
    refine ⟨num * Nat.pow 2 (-(e + 1)).toNat, den, Or.inr ⟨?_, ?_⟩⟩
    · rw [scaleRatio, if_neg he, hexp]
      simp only [Nat.pow_eq, Nat.pow_succ, Prod.mk.injEq, and_true]
      rw [← Nat.mul_assoc, Nat.mul_comm]
    · by_cases hzero : e + 1 = 0
      · simp [scaleRatio, hzero]
      · rw [scaleRatio, if_neg (by omega)]

/-- The fraction is at least `2 ^ (e + k)` just if, in units of `2 ^ e`, it is at least
`2 ^ k`. -/
theorem scaleRatio_add_le_iff (num den : Nat) (e : Int) (k : Nat) :
    (scaleRatio num den (e + k)).2 ≤ (scaleRatio num den (e + k)).1 ↔
      Nat.pow 2 k * (scaleRatio num den e).2 ≤ (scaleRatio num den e).1 := by
  induction k generalizing e with
  | zero => simp
  | succ k ih =>
    have hshift : e + (k + 1 : Nat) = e + 1 + k := by omega
    have hpow : Nat.pow 2 (k + 1) = 2 * Nat.pow 2 k := by
      rw [Nat.pow_eq, Nat.pow_succ, Nat.mul_comm]
      rfl
    rw [hshift, ih, hpow]
    obtain ⟨p, q, ⟨he, hsucc⟩ | ⟨he, hsucc⟩⟩ := exists_scaleRatio_succ num den e
    · rw [he, hsucc, ← Nat.mul_assoc, Nat.mul_comm (Nat.pow 2 k)]
    · rw [he, hsucc, Nat.mul_assoc]
      exact (Nat.mul_le_mul_left_iff Nat.two_pos).symm

/-- A number that is shifted to the length of a longer one is near to it. -/
theorem shift_log2 {x y : Nat} (hx : x ≠ 0) (hy : y ≠ 0) (h : Nat.log2 y ≤ Nat.log2 x) :
    x < 2 * (y * Nat.pow 2 (Nat.log2 x - Nat.log2 y)) ∧
      y * Nat.pow 2 (Nat.log2 x - Nat.log2 y) < 2 * x := by
  have hxlow := Nat.log2_self_le hx
  have hxhigh : x < 2 ^ (Nat.log2 x + 1) := Nat.lt_log2_self
  have hylow := Nat.log2_self_le hy
  have hyhigh : y < 2 ^ (Nat.log2 y + 1) := Nat.lt_log2_self
  have hpow : 2 ^ Nat.log2 x = 2 ^ Nat.log2 y * 2 ^ (Nat.log2 x - Nat.log2 y) := by
    rw [← Nat.pow_add]
    congr 1
    omega
  have hle := Nat.mul_le_mul_right (2 ^ (Nat.log2 x - Nat.log2 y)) hylow
  have hlt := Nat.mul_lt_mul_of_pos_right hyhigh (Nat.two_pow_pos (Nat.log2 x - Nat.log2 y))
  rw [Nat.pow_succ] at hxhigh hlt
  rw [Nat.mul_right_comm] at hlt
  rw [Nat.pow_eq]
  omega

/-- In units of two to the difference of the lengths, a fraction is near one. -/
theorem scaleRatio_log2 {num den : Nat} (hnum : num ≠ 0) (hden : den ≠ 0) :
    let scaled := scaleRatio num den ((Nat.log2 num : Int) - Nat.log2 den)
    scaled.1 < 2 * scaled.2 ∧ scaled.2 < 2 * scaled.1 := by
  by_cases hlength : Nat.log2 den ≤ Nat.log2 num
  · have hexp : ((Nat.log2 num : Int) - Nat.log2 den).toNat = Nat.log2 num - Nat.log2 den := by
      omega
    rw [scaleRatio, if_pos (by omega), hexp]
    exact shift_log2 hnum hden hlength
  · have hexp : (-((Nat.log2 num : Int) - Nat.log2 den)).toNat = Nat.log2 den - Nat.log2 num := by
      omega
    rw [scaleRatio, if_neg (by omega), hexp]
    exact (shift_log2 hden hnum (by omega)).symm

/-- A positive fraction lies between the power of two that is found and its double. -/
theorem scaleRatio_floorLog2 {num den : Nat} (hnum : num ≠ 0) (hden : den ≠ 0) :
    let scaled := scaleRatio num den (floorLog2 num den)
    scaled.2 ≤ scaled.1 ∧ scaled.1 < 2 * scaled.2 := by
  obtain ⟨hlt, hgt⟩ := scaleRatio_log2 hnum hden
  simp only [floorLog2]
  split
  · rename_i hle
    exact ⟨hle, hlt⟩
  · rename_i hless
    obtain ⟨p, q, h⟩ :=
      exists_scaleRatio_succ num den ((Nat.log2 num : Int) - Nat.log2 den - 1)
    rw [Int.sub_add_cancel] at h
    rcases h with ⟨he, hsucc⟩ | ⟨he, hsucc⟩ <;> rw [hsucc] at hless hgt <;> rw [he] <;>
      simp only at * <;> omega

/-- What `floorLog2` finds is the greatest exponent of a power of two that a positive fraction
is not below. -/
theorem le_floorLog2_iff {num den : Nat} (hnum : num ≠ 0) (hden : den ≠ 0) (e : Int) :
    e ≤ floorLog2 num den ↔ (scaleRatio num den e).2 ≤ (scaleRatio num den e).1 := by
  obtain ⟨hle, hlt⟩ := scaleRatio_floorLog2 hnum hden
  constructor
  · intro h
    have hexp : e + (floorLog2 num den - e).toNat = floorLog2 num den := by omega
    have hpow := (scaleRatio_add_le_iff num den e (floorLog2 num den - e).toNat).mp (by rwa [hexp])
    exact Nat.le_trans (Nat.le_mul_of_pos_left _ (Nat.two_pow_pos _)) hpow
  · intro h
    refine Int.not_lt.mp fun hless => ?_
    have hexp : floorLog2 num den + 1 + (e - (floorLog2 num den + 1)).toNat = e := by omega
    have hpow := (scaleRatio_add_le_iff num den (floorLog2 num den + 1)
      (e - (floorLog2 num den + 1)).toNat).mp (by rwa [hexp])
    have hnext : (scaleRatio num den (floorLog2 num den + 1)).2 ≤
        (scaleRatio num den (floorLog2 num den + 1)).1 :=
      Nat.le_trans (Nat.le_mul_of_pos_left _ (Nat.two_pow_pos _)) hpow
    have htwice := (scaleRatio_add_le_iff num den (floorLog2 num den) 1).mp hnext
    exact absurd hlt (Nat.not_lt.mpr htwice)

/-! ## Nearest integers -/

theorem roundHalfEven_le {num den k : Nat} (h : num ≤ k * den) : roundHalfEven num den ≤ k := by
  have hquotient : num / den ≤ k := Nat.div_le_of_le_mul (by rwa [Nat.mul_comm])
  have hparts := Nat.div_add_mod num den
  -- A quotient that is `k` leaves no remainder, so that it is not rounded up.
  have hexact : num / den = k → num % den = 0 := by
    intro hq
    rw [hq, Nat.mul_comm] at hparts
    omega
  simp only [roundHalfEven]
  by_cases hq : num / den = k
  · rw [hexact hq]
    by_cases hden : den = 0
    · subst hden
      simp
    · rw [if_pos (by omega)]
      exact hquotient
  · repeat' split
    all_goals omega

theorem le_roundHalfEven {num den k : Nat} (hden : 0 < den) (h : k * den ≤ num) :
    k ≤ roundHalfEven num den := by
  have hquotient : k ≤ num / den := (Nat.le_div_iff_mul_le hden).mpr h
  simp only [roundHalfEven]
  repeat' split
  all_goals omega

theorem lt_roundHalfEven {num den k : Nat} (hden : 0 < den) (h : (2 * k + 1) * den < 2 * num) :
    k < roundHalfEven num den := by
  have htwice : k * den ≤ num := by
    rw [Nat.add_mul, Nat.mul_assoc] at h
    omega
  have hquotient : k ≤ num / den := (Nat.le_div_iff_mul_le hden).mpr htwice
  have hparts := Nat.div_add_mod num den
  have hup : num / den = k → den < 2 * (num % den) := by
    intro hq
    rw [hq, Nat.mul_comm] at hparts
    rw [Nat.add_mul, Nat.mul_assoc] at h
    omega
  simp only [roundHalfEven]
  repeat' split
  all_goals omega

/-! ## Integer parts of rounded fractions -/

/-- The integer part of the absolute value of a finite number. -/
def integerPart (significand : Nat) (exponent : Int) : Nat :=
  (ratio significand exponent).1 / (ratio significand exponent).2

theorem ratio_pos (m : Nat) (e : Int) : 0 < (ratio m e).2 := by
  rw [ratio]
  split
  · exact Nat.one_pos
  · exact Nat.two_pow_pos _

theorem integerPart_of_nonneg (m : Nat) {e : Int} (h : 0 ≤ e) :
    integerPart m e = m * Nat.pow 2 e.toNat := by
  rw [integerPart, ratio, if_pos h, Nat.div_one]

theorem integerPart_of_nonpos (m : Nat) {e : Int} (h : e ≤ 0) :
    integerPart m e = m / Nat.pow 2 (-e).toNat := by
  by_cases hzero : e = 0
  · simp [integerPart, ratio, hzero]
  · rw [integerPart, ratio, if_neg (by omega)]

/-- A significand that is halved makes up for one more in the exponent. -/
theorem integerPart_succ (m : Nat) (e : Int) : integerPart m (e + 1) = integerPart (2 * m) e := by
  by_cases he : 0 ≤ e
  · have hexp : (e + 1).toNat = e.toNat + 1 := by omega
    rw [integerPart_of_nonneg _ he, integerPart_of_nonneg _ (by omega), hexp, Nat.pow_eq,
      Nat.pow_eq, Nat.pow_succ, Nat.mul_comm (2 ^ e.toNat), ← Nat.mul_assoc, Nat.mul_comm m]
  · have hexp : (-e).toNat = (-(e + 1)).toNat + 1 := by omega
    rw [integerPart_of_nonpos _ (by omega), integerPart_of_nonpos _ (by omega), hexp, Nat.pow_eq,
      Nat.pow_eq, Nat.pow_succ, Nat.mul_comm _ 2, Nat.mul_div_mul_left _ _ Nat.two_pos]

/-- The exponent beside the significand of a rounded fraction, before a carry. -/
def roundingExponent (num den : Nat) : Int :=
  max (floorLog2 num den - 52) (-1074)

/-- The significand of a rounded fraction, before a carry. -/
def roundedSignificand (num den : Nat) : Nat :=
  let scaled := scaleRatio num den (roundingExponent num den)
  roundHalfEven scaled.1 scaled.2

/-- In units of the last bit of its significand a fraction is below 2 ^ 53. -/
theorem roundedSignificand_le {num den : Nat} (hnum : num ≠ 0) (hden : den ≠ 0) :
    roundedSignificand num den ≤ 9007199254740992 := by
  have habove : ¬ roundingExponent num den + (53 : Nat) ≤ floorLog2 num den := by
    rw [roundingExponent]
    omega
  rw [le_floorLog2_iff hnum hden, scaleRatio_add_le_iff, Nat.not_le] at habove
  exact roundHalfEven_le (Nat.le_of_lt habove)

/-- Rounding looks for a carry first and then for an overflow. -/
theorem nearest_eq_ite {num den : Nat} (hnum : num ≠ 0) :
    binary64.nearest num den =
      if 971 < (if roundedSignificand num den = 9007199254740992 then
          (roundedSignificand num den / 2, roundingExponent num den + 1)
        else (roundedSignificand num den, roundingExponent num den)).2 then none
      else some (if roundedSignificand num den = 9007199254740992 then
          (roundedSignificand num den / 2, roundingExponent num den + 1)
        else (roundedSignificand num den, roundingExponent num den)) := by
  rw [BinaryFormat.nearest, if_neg hnum]
  rfl

/-- A carry leaves the least full significand, and needs an exponent that is greater by one. -/
theorem nearest_of_carry {num den : Nat} (hnum : num ≠ 0)
    (h : roundedSignificand num den = 9007199254740992) :
    binary64.nearest num den = if 971 < roundingExponent num den + 1 then none
      else some (4503599627370496, roundingExponent num den + 1) := by
  rw [nearest_eq_ite hnum, if_pos h, h]

theorem nearest_of_no_carry {num den : Nat} (hnum : num ≠ 0)
    (h : roundedSignificand num den ≠ 9007199254740992) :
    binary64.nearest num den = if 971 < roundingExponent num den then none
      else some (roundedSignificand num den, roundingExponent num den) := by
  rw [nearest_eq_ite hnum, if_neg h]

/-- A rounded fraction is infinite, or a number with the integer part that the significand before
a carry has. -/
theorem nearest_cases {num den : Nat} (hnum : num ≠ 0) (hden : den ≠ 0) :
    (binary64.nearest num den = none ∧ 970 ≤ roundingExponent num den) ∨
      ∃ m e, binary64.nearest num den = some (m, e) ∧ m < 9007199254740992 ∧
        integerPart m e = integerPart (roundedSignificand num den) (roundingExponent num den) := by
  have hle := roundedSignificand_le hnum hden
  by_cases hcarry : roundedSignificand num den = 9007199254740992
  · rw [nearest_of_carry hnum hcarry]
    split
    · exact Or.inl ⟨rfl, by omega⟩
    · refine Or.inr ⟨_, _, rfl, by decide, ?_⟩
      rw [integerPart_succ, hcarry]
  · rw [nearest_of_no_carry hnum hcarry]
    split
    · exact Or.inl ⟨rfl, by omega⟩
    · exact Or.inr ⟨_, _, rfl, Nat.lt_of_le_of_ne hle hcarry, rfl⟩

/-! ## The two sides of an integer -/

section

variable {bound num den : Nat}

/-- A fraction that is at most an integer of 53 bits is rounded to a number that is at most
that integer. -/
theorem integerPart_nearest_le (hhigh : bound < 9007199254740992) (hden : den ≠ 0)
    (h : num ≤ bound * den) :
    ∃ m e, binary64.nearest num den = some (m, e) ∧ integerPart m e ≤ bound := by
  by_cases hnum : num = 0
  · subst hnum
    refine ⟨0, -1074, rfl, ?_⟩
    rw [integerPart, ratio_zero_fst, Nat.zero_div]
    exact Nat.zero_le _
  · have hexp : roundingExponent num den ≤ 0 := by
      have hbelow : ¬ (53 : Int) ≤ floorLog2 num den := by
        rw [le_floorLog2_iff hnum hden]
        change ¬ den * 9007199254740992 ≤ num
        have := Nat.mul_lt_mul_of_pos_right hhigh (Nat.pos_of_ne_zero hden)
        omega
      rw [roundingExponent]
      omega
    rcases nearest_cases hnum hden with ⟨_, hinfinite⟩ | ⟨m, e, hnearest, _, hpart⟩
    · omega
    · refine ⟨m, e, hnearest, ?_⟩
      have hunits : roundedSignificand num den ≤
          bound * Nat.pow 2 (-roundingExponent num den).toNat := by
        rw [roundedSignificand, scaleRatio_of_nonpos num den hexp]
        refine roundHalfEven_le ?_
        rw [Nat.mul_right_comm]
        exact Nat.mul_le_mul_right _ h
      rw [hpart, integerPart_of_nonpos _ hexp]
      exact Nat.div_le_of_le_mul (by rwa [Nat.mul_comm])

/-- A fraction that is more than a half above an integer of 53 bits is rounded to a greater
number, if it is not rounded to infinity. -/
theorem lt_integerPart_nearest (hlow : 4503599627370496 ≤ bound)
    (hhigh : bound < 9007199254740992) (hden : den ≠ 0) (h : (2 * bound + 1) * den < 2 * num)
    {m : Nat} {e : Int} (hnearest : binary64.nearest num den = some (m, e)) :
    bound < integerPart m e := by
  have hnum : num ≠ 0 := by omega
  have habove : (52 : Int) ≤ floorLog2 num den := by
    rw [le_floorLog2_iff hnum hden]
    change den * 4503599627370496 ≤ num
    have := Nat.mul_le_mul_right den hlow
    rw [Nat.add_mul, Nat.mul_assoc] at h
    omega
  have hexp : roundingExponent num den = floorLog2 num den - 52 := by
    rw [roundingExponent]
    omega
  rcases nearest_cases hnum hden with ⟨hnone, _⟩ | ⟨m', e', hsome, _, hpart⟩
  · exact absurd (hnone.symm.trans hnearest) (by simp)
  · obtain ⟨rfl, rfl⟩ := Prod.mk.inj (Option.some.inj (hsome.symm.trans hnearest))
    rw [hpart, integerPart_of_nonneg _ (by omega)]
    by_cases hunit : roundingExponent num den = 0
    · have hsignificand : bound < roundedSignificand num den := by
        rw [roundedSignificand, hunit, scaleRatio_of_nonpos num den (Int.le_refl 0)]
        exact lt_roundHalfEven (Nat.pos_of_ne_zero hden) (by simpa using h)
      rw [hunit]
      simpa using hsignificand
    -- Above the integers of 53 bits the significand is full and counts in twos at least.
    · have hfull : 4503599627370496 ≤ roundedSignificand num den := by
        have hle : roundingExponent num den + (52 : Nat) ≤ floorLog2 num den := by omega
        rw [le_floorLog2_iff hnum hden, scaleRatio_add_le_iff] at hle
        exact le_roundHalfEven (scaleRatio_pos (Nat.pos_of_ne_zero hden) _ _) hle
      have htwo : 2 ≤ Nat.pow 2 (roundingExponent num den).toNat :=
        Nat.le_self_pow (by omega) 2
      have := Nat.mul_le_mul hfull htwo
      omega

end

/-! ## Numbers of text -/

/-- A finite number that a fraction is rounded to has at most 53 bits. -/
theorem significand_lt_of_ofRatio {negative negative' : Bool} {num den m : Nat} {e : Int}
    (hden : den ≠ 0) (h : ofRatio negative num den = .finite negative' m e) :
    m < 9007199254740992 := by
  by_cases hnum : num = 0
  · subst hnum
    obtain ⟨_, rfl, _⟩ := Double.finite.inj h
    decide
  · rw [ofRatio] at h
    rcases nearest_cases hnum hden with ⟨hnone, _⟩ | ⟨m', e', hsome, hlt, _⟩
    · rw [hnone] at h
      exact absurd h (by simp)
    · rw [hsome] at h
      obtain ⟨_, rfl, _⟩ := Double.finite.inj h
      exact hlt

theorem significand_lt_of_ofDecimal {negative negative' : Bool} {digits m : Nat} {exponent e : Int}
    (h : ofDecimal negative digits exponent = .finite negative' m e) : m < 9007199254740992 := by
  simp only [ofDecimal] at h
  split at h
  · exact significand_lt_of_ofRatio Nat.one_ne_zero h
  · split at h
    · exact absurd h (by simp)
    · split at h
      · exact significand_lt_of_ofRatio Nat.one_ne_zero h
      · split at h
        · exact significand_lt_of_ofRatio Nat.one_ne_zero h
        · have hpow : Nat.pow 10 (-exponent).toNat ≠ 0 := Nat.ne_of_gt (Nat.pow_pos (by decide))
          exact significand_lt_of_ofRatio hpow h

theorem significand_lt_of_ofInt {n : Int} {negative : Bool} {m : Nat} {e : Int}
    (h : ofInt n = .finite negative m e) : m < 9007199254740992 :=
  significand_lt_of_ofRatio Nat.one_ne_zero h

theorem significand_lt_of_based {base : Nat} {digits : List Char} {negative : Bool} {m : Nat}
    {e : Int} (h : ofTrimmed.based base digits = .finite negative m e) : m < 9007199254740992 := by
  rw [ofTrimmed.based] at h
  split at h
  · exact significand_lt_of_ofInt h
  · exact absurd h (by simp)

/-- The number that text denotes has at most 53 bits. -/
theorem significand_lt_of_ofText {text : String} {negative : Bool} {m : Nat} {e : Int}
    (h : ofText text = .finite negative m e) : m < 9007199254740992 := by
  rw [ofText, ofTrimmed.eq_def] at h
  split at h
  · exact significand_lt_of_ofInt (n := 0) h
  · exact significand_lt_of_based h
  · exact significand_lt_of_based h
  · exact significand_lt_of_based h
  · exact significand_lt_of_based h
  · exact significand_lt_of_based h
  · exact significand_lt_of_based h
  · generalize Text.splitSign _ = sign at h
    simp only at h
    split at h
    · exact Double.noConfusion h
    · split at h
      · exact significand_lt_of_ofDecimal h
      · exact Double.noConfusion h

end WarehouseRows.Double
