import WarehouseRows.Proofs.NormalNumbers

/-!
# Integers beyond the largest number

The largest finite number has a significand of 53 ones and the exponent 971. From half a unit of its
last bit above it on, integers are rounded to infinity: a tie goes to the even significand, and that
one has a bit too many. All integers below are rounded to a finite number, which is whole.

## Main definitions

* `Double.largest`: the largest finite number.
* `Double.overflow`: the least integer that is rounded to infinity.

## Main results

* `Double.nearest_eq_none_iff`: the integers that are rounded to infinity.
* `Double.exists_whole?_ofInt`: the integers that are rounded to a whole number.
-/

namespace WarehouseRows.Double

/-- Half a unit of the last bit of the largest number. -/
def halfUnit : Nat := 2 ^ 970

/-- The integer that is the largest finite number. -/
def largest : Nat := (2 ^ 53 - 1) * (2 * halfUnit)

/-- The least integer that is rounded to infinity. -/
def overflow : Nat := largest + halfUnit

theorem pow_le_halfUnit {e k : Nat} (h : e ≤ 970 + k) : 2 ^ e ≤ 2 ^ k * halfUnit := by
  rw [halfUnit, Nat.mul_comm, ← Nat.pow_add]
  exact Nat.pow_le_pow_right Nat.two_pos h

theorem halfUnit_le_pow {e k : Nat} (h : 970 + k ≤ e) : 2 ^ k * halfUnit ≤ 2 ^ e := by
  rw [halfUnit, Nat.mul_comm, ← Nat.pow_add]
  exact Nat.pow_le_pow_right Nat.two_pos h

-- It is only counted with, and never computed.
attribute [irreducible] halfUnit

theorem halfUnit_pos : 0 < halfUnit := by
  have hle : 2 ^ 0 ≤ 2 ^ 0 * halfUnit := pow_le_halfUnit (Nat.zero_le _)
  omega

/-! ## Ties -/

/-- A fraction is rounded up to an even integer from half a unit below it on. -/
theorem le_roundHalfEven_iff {num den k : Nat} (hden : 0 < den) (heven : k % 2 = 0) :
    k ≤ roundHalfEven num den ↔ 2 * (k * den) ≤ 2 * num + den := by
  have hparts := Nat.div_add_mod num den
  have hless := Nat.mod_lt num hden
  by_cases habove : k * den ≤ num
  · exact iff_of_true (le_roundHalfEven hden habove) (by omega)
  · have hquotient : num / den < k := (Nat.div_lt_iff_lt_mul hden).mpr (Nat.not_le.mp habove)
    rw [Nat.mul_comm] at hparts
    by_cases hnext : num / den + 1 = k
    · have hunits : k * den = num / den * den + den := by
        rw [← hnext, Nat.succ_mul]
      simp only [roundHalfEven]
      repeat' split
      all_goals omega
    -- farther below, not even the next integer is the even one
    · have hfar : num / den * den + den + den ≤ k * den := by
        rw [← Nat.succ_mul, ← Nat.succ_mul]
        exact Nat.mul_le_mul_right _ (by omega)
      have hround : roundHalfEven num den ≤ num / den + 1 := by
        simp only [roundHalfEven]
        repeat' split
        all_goals omega
      apply iff_of_false <;> omega

/-! ## Rounding to infinity -/

theorem roundingExponent_one {n : Nat} (hn : n ≠ 0) :
    roundingExponent n 1 = (Nat.log2 n : Int) - 52 := by
  rw [roundingExponent, floorLog2_one hn]
  omega

/-- A fraction is rounded to infinity if its exponent is too great, or a carry makes it so. -/
theorem nearest_eq_none {num den : Nat} (hnum : num ≠ 0) :
    binary64.nearest num den = none ↔ 971 < roundingExponent num den ∨
      roundingExponent num den = 971 ∧ roundedSignificand num den = 9007199254740992 := by
  by_cases hcarry : roundedSignificand num den = 9007199254740992
  · rw [nearest_of_carry hnum hcarry]
    by_cases hmost : 971 < roundingExponent num den + 1
    · rw [if_pos hmost]
      exact iff_of_true rfl (by omega)
    · rw [if_neg hmost]
      exact iff_of_false (by simp) (by omega)
  · rw [nearest_of_no_carry hnum hcarry]
    by_cases hmost : 971 < roundingExponent num den
    · rw [if_pos hmost]
      exact iff_of_true rfl (Or.inl hmost)
    · rw [if_neg hmost]
      exact iff_of_false (by simp) (by omega)

/-- With the greatest exponent, the integers that need a carry are those from the least one on that
is rounded to infinity. -/
theorem carry_iff_overflow {n : Nat} (hn : n ≠ 0) (hexp : roundingExponent n 1 = 971) :
    roundedSignificand n 1 = 9007199254740992 ↔ overflow ≤ n := by
  have hle := roundedSignificand_le hn Nat.one_ne_zero
  have hunit : Nat.pow 2 (roundingExponent n 1).toNat = 2 * halfUnit :=
    Nat.le_antisymm (pow_le_halfUnit (k := 1) (by omega)) (halfUnit_le_pow (k := 1) (by omega))
  have hpos := halfUnit_pos
  have hround : 9007199254740992 ≤ roundedSignificand n 1 ↔ overflow ≤ n := by
    rw [roundedSignificand, scaleRatio, if_pos (by omega), hunit,
      le_roundHalfEven_iff (by omega) (by decide), overflow, largest]
    omega
  rw [← hround]
  exact ⟨Nat.le_of_eq ∘ Eq.symm, Nat.le_antisymm hle⟩

/-- Just the integers from this one on are rounded to infinity. -/
theorem nearest_eq_none_iff {n : Nat} : binary64.nearest n 1 = none ↔ overflow ≤ n := by
  have hpos := halfUnit_pos
  by_cases hn : n = 0
  · subst hn
    rw [BinaryFormat.nearest, if_pos rfl, overflow]
    exact iff_of_false (by simp) (by omega)
  have hlow := Nat.log2_self_le hn
  have hhigh : n < 2 ^ (Nat.log2 n + 1) := Nat.lt_log2_self
  have hexp := roundingExponent_one hn
  rw [nearest_eq_none hn]
  rcases Nat.lt_trichotomy (Nat.log2 n) 1023 with hlt | heq | hgt
  · have hpow : 2 ^ (Nat.log2 n + 1) ≤ 2 ^ 53 * halfUnit := pow_le_halfUnit (by omega)
    have hless : ¬overflow ≤ n := by
      rw [overflow, largest]
      omega
    exact iff_of_false (by omega) hless
  · have hmost : roundingExponent n 1 = 971 := by omega
    rw [← carry_iff_overflow hn hmost]
    simp [hmost]
  · have hpow : 2 ^ 54 * halfUnit ≤ 2 ^ Nat.log2 n := halfUnit_le_pow (by omega)
    have hmore : overflow ≤ n := by
      rw [overflow, largest]
      omega
    exact iff_of_true (Or.inl (by omega)) hmore

/-! ## Whole numbers -/

theorem whole?_of_nonneg (negative : Bool) (m : Nat) {e : Int} (he : 0 ≤ e) :
    (Double.finite negative m e).whole? = some (signed negative (integerPart m e)) := by
  rw [whole?_eq_some, integerPart_of_nonneg m he, ratio, if_pos he]
  simp

/-- An integer of more than 53 bits is rounded to a number with no bits behind the point, or to
infinity. -/
theorem exponent_nonneg_of_nearest {n m : Nat} {e : Int} (hbits : 2 ^ 53 ≤ n)
    (h : binary64.nearest n 1 = some (m, e)) : 0 ≤ e := by
  have hn : n ≠ 0 := by omega
  have hlog : 53 ≤ Nat.log2 n := (Nat.le_log2 hn).mpr hbits
  have hexp := roundingExponent_one hn
  by_cases hcarry : roundedSignificand n 1 = 9007199254740992
  · rw [nearest_of_carry hn hcarry] at h
    split at h
    · exact absurd h (by simp)
    · obtain ⟨-, rfl⟩ := Prod.mk.inj (Option.some.inj h)
      omega
  · rw [nearest_of_no_carry hn hcarry] at h
    split at h
    · exact absurd h (by simp)
    · obtain ⟨-, rfl⟩ := Prod.mk.inj (Option.some.inj h)
      omega

/-- Just the integers below are rounded to a whole number. -/
theorem exists_whole?_ofInt {n : Int} :
    (∃ k, (ofInt n).whole? = some k) ↔ n.natAbs < overflow := by
  by_cases hbits : n.natAbs < 2 ^ 53
  · refine iff_of_true ⟨n, whole?_ofInt hbits⟩ ?_
    have hpos := halfUnit_pos
    rw [overflow, largest]
    omega
  · rw [← Nat.not_le, ← nearest_eq_none_iff, ofInt, ofRatio]
    cases hnearest : binary64.nearest n.natAbs 1 with
    | none => simp [whole?]
    | some number =>
      have he := exponent_nonneg_of_nearest (Nat.not_lt.mp hbits) hnearest
      exact iff_of_true ⟨_, whole?_of_nonneg _ _ he⟩ (by simp)

/-- No whole number in normal form is beyond the largest one. -/
theorem natAbs_le_largest {x : Double} (hx : x.InNormalForm) {n : Int} (h : x.whole? = some n) :
    n.natAbs ≤ largest := by
  cases x with
  | nan => exact absurd h (by simp [whole?])
  | infinity => exact absurd h (by simp [whole?])
  | finite negative m e =>
    have hnormal : IsNormal m e := hx
    have hm : m ≤ 2 ^ 53 - 1 := Nat.le_sub_one_of_lt hnormal.lt
    have hmost := hnormal.most
    obtain ⟨-, rfl⟩ := whole?_eq_some.mp h
    rw [natAbs_signed, largest]
    by_cases he : 0 ≤ e
    · have hpow : Nat.pow 2 e.toNat ≤ 2 * halfUnit := pow_le_halfUnit (k := 1) (by omega)
      rw [integerPart_of_nonneg m he]
      exact Nat.mul_le_mul hm hpow
    · have hpos := halfUnit_pos
      rw [integerPart_of_nonpos m (by omega)]
      calc m / Nat.pow 2 (-e).toNat ≤ m := Nat.div_le_self _ _
        _ ≤ 2 ^ 53 - 1 := hm
        _ ≤ (2 ^ 53 - 1) * (2 * halfUnit) := Nat.le_mul_of_pos_right _ (by omega)

end WarehouseRows.Double
