import WarehouseRows.Number.Shortest
import WarehouseRows.Row.Scalar
import WarehouseRows.Proofs.Digits

/-!
# Integers as binary64 numbers

An integer of no more than 53 bits is a binary64 number: rounding leaves it as it is, so
that it can be read back, and its text is its decimal digits. The narrow integers are
among these.
-/

namespace WarehouseRows

/-- The integer without the minus sign of a zero. -/
def Whole.plain (n : Whole) : Whole :=
  .ofInt n.toInt

@[simp] theorem Whole.toInt_plain (n : Whole) : n.plain.toInt = n.toInt := rfl

namespace Double

/-! ## Integers that fit the significand -/

/-- An integer divided by one is rounded to itself. -/
theorem roundHalfEven_one (n : Nat) : roundHalfEven n 1 = n := by
  simp [roundHalfEven, Nat.mod_one]

theorem floorLog2_one {n : Nat} (hn : n ≠ 0) : floorLog2 n 1 = Nat.log2 n := by
  have hle : 2 ^ Nat.log2 n ≤ n := Nat.log2_self_le hn
  simp [floorLog2, scaleRatio, show Nat.log2 1 = 0 from rfl, hle]

/-- The number that is nearest to a positive integer of at most 53 bits has the digits of
the integer, moved to the left until the significand is full. -/
theorem nearest_nat {n : Nat} (hn : n ≠ 0) (hlt : n < 2 ^ 53) :
    binary64.nearest n 1 = some (n * 2 ^ (52 - Nat.log2 n), (Nat.log2 n : Int) - 52) := by
  have hlog : Nat.log2 n ≤ 52 := by
    have := (Nat.log2_lt hn).mpr hlt
    omega
  have hbound : n * 2 ^ (52 - Nat.log2 n) < 2 ^ 53 := by
    have hself : n < 2 ^ (Nat.log2 n + 1) := Nat.lt_log2_self
    calc n * 2 ^ (52 - Nat.log2 n) < 2 ^ (Nat.log2 n + 1) * 2 ^ (52 - Nat.log2 n) :=
          Nat.mul_lt_mul_of_pos_right hself (Nat.two_pow_pos _)
      _ = 2 ^ 53 := by rw [← Nat.pow_add]; congr 1; omega
  have he : max ((Nat.log2 n : Int) - ((53 : Nat) - 1)) (-1074) = (Nat.log2 n : Int) - 52 := by
    omega
  have hscaled : (scaleRatio n 1 ((Nat.log2 n : Int) - 52)).1 = n * 2 ^ (52 - Nat.log2 n) ∧
      (scaleRatio n 1 ((Nat.log2 n : Int) - 52)).2 = 1 := by
    rcases Nat.lt_or_eq_of_le hlog with hless | heq
    · have hexp : (-((Nat.log2 n : Int) - 52)).toNat = 52 - Nat.log2 n := by omega
      rw [scaleRatio, if_neg (by omega), hexp]
      exact ⟨rfl, rfl⟩
    · simp [scaleRatio, heq]
  simp only [BinaryFormat.nearest, binary64, hn, if_false, floorLog2_one hn, he, hscaled.1,
    hscaled.2, roundHalfEven_one]
  have hne : ¬ (n * 2 ^ (52 - Nat.log2 n) = Nat.pow 2 53) := Nat.ne_of_lt hbound
  have hmax : ¬ ((971 : Int) < (Nat.log2 n : Int) - 52) := by omega
  simp only [hne, hmax, if_false]

@[simp] theorem ratio_zero_fst (e : Int) : (ratio 0 e).1 = 0 := by
  unfold ratio
  split <;> simp

theorem ratio_shifted (n k : Nat) (hk : k ≤ 52) :
    ratio (n * 2 ^ (52 - k)) ((k : Int) - 52) = (n * 2 ^ (52 - k), 2 ^ (52 - k)) := by
  rcases Nat.lt_or_eq_of_le hk with hless | heq
  · have hexp : (-((k : Int) - 52)).toNat = 52 - k := by omega
    rw [ratio, if_neg (by omega), hexp]
    rfl
  · simp [ratio, heq]

/-- What an integer of at most 53 bits is as a number: the fraction of its significand and
its exponent is the integer itself. -/
theorem exists_ofInt {n : Int} (h : n.natAbs < 2 ^ 53) :
    ∃ m e, Double.ofInt n = .finite (decide (n < 0)) m e ∧ (ratio m e).1 % (ratio m e).2 = 0 ∧
      (ratio m e).1 / (ratio m e).2 = n.natAbs ∧ (m = 0 ↔ n = 0) := by
  by_cases hn : n.natAbs = 0
  · obtain rfl : n = 0 := by omega
    exact ⟨0, -1074, rfl, by simp, by simp, by simp⟩
  · have hlog : Nat.log2 n.natAbs ≤ 52 := by
      have := (Nat.log2_lt hn).mpr h
      omega
    have hpos : 0 < 2 ^ (52 - Nat.log2 n.natAbs) := Nat.two_pow_pos _
    refine ⟨n.natAbs * 2 ^ (52 - Nat.log2 n.natAbs), (Nat.log2 n.natAbs : Int) - 52, ?_, ?_, ?_, ?_⟩
    · simp [Double.ofInt, ofRatio, nearest_nat hn h]
    · rw [ratio_shifted _ _ hlog]
      exact Nat.mul_mod_left _ _
    · rw [ratio_shifted _ _ hlog]
      exact Nat.mul_div_cancel _ hpos
    · constructor
      · intro hm
        rcases Nat.mul_eq_zero.mp hm with hz | hz
        · exact absurd hz hn
        · omega
      · intro hz
        omega

theorem signed_natAbs (n : Int) : signed (decide (n < 0)) n.natAbs = n := by
  by_cases h : n < 0
  · simp only [signed, h, decide_true, if_true]
    omega
  · simp only [signed, h, decide_false, Bool.false_eq_true, if_false]
    omega

theorem natAbs_signed (negative : Bool) (n : Nat) : (signed negative n).natAbs = n := by
  cases negative <;> simp [signed]

/-- The number of a signed integer has its sign and its absolute value. -/
theorem ofInt_signed {n : Nat} (hn : n ≠ 0) (negative : Bool) :
    ofInt (signed negative n) = ofRatio negative n 1 := by
  have hsign : decide (signed negative n < 0) = negative := by
    cases negative with
    | true =>
      simp only [signed, if_true, decide_eq_true_eq]
      omega
    | false => simp [signed]
  rw [ofInt, hsign, natAbs_signed]

/-- An integer of at most 53 bits can be read back. -/
theorem whole?_ofInt {n : Int} (h : n.natAbs < 2 ^ 53) : (Double.ofInt n).whole? = some n := by
  obtain ⟨m, e, heq, hmod, hdiv, _⟩ := exists_ofInt h
  simp only [heq, whole?, hmod, if_true, hdiv, signed_natAbs]

theorem ofDouble?_ofInt {n : Int} (h : n.natAbs < 2 ^ 53) :
    Whole.ofDouble? (Double.ofInt n) = some (.ofInt n) := by
  have hw := whole?_ofInt h
  obtain ⟨m, e, heq, _, _, hzero⟩ := exists_ofInt h
  rw [heq] at hw ⊢
  -- A number with a sign and no significand would be the negative zero.
  have hsign : ¬ (decide (n < 0) = true ∧ m = 0) := by
    rintro ⟨hneg, hm⟩
    have := hzero.mp hm
    simp_all
  unfold Whole.ofDouble?
  split
  · rename_i hfin
    simp only [finite.injEq] at hfin
    exact absurd ⟨hfin.1, hfin.2.1⟩ hsign
  · rw [hw]
    rfl

/-- The text of an integer of at most 53 bits is that of the integer. -/
theorem text_ofInt {n : Int} (h : n.natAbs < 2 ^ 53) : (Double.ofInt n).text = toString n := by
  obtain ⟨m, e, heq, hmod, hdiv, hzero⟩ := exists_ofInt h
  have hmag : magnitudeText m e = Nat.repr n.natAbs := by
    simp only [magnitudeText, hmod, hdiv]
    rw [if_pos ⟨trivial, h⟩]
  apply String.toList_inj.mp
  rw [Text.toList_toString]
  by_cases hneg : n < 0
  · have hm : m ≠ 0 := by
      intro hm
      have := hzero.mp hm
      omega
    simp [heq, text, hneg, hm, hmag, Text.signChars]
  · simp [heq, text, hneg, hmag, Text.signChars]

/-! ## Zeros -/

theorem whole?_of_isZero {x : Double} (h : x.isZero = true) : x.whole? = some 0 := by
  cases x with
  | nan => exact absurd h (by simp [Double.isZero])
  | infinity _ => exact absurd h (by simp [Double.isZero])
  | finite negative m e =>
    cases m with
    | succ m => exact absurd h (by simp [Double.isZero])
    | zero => cases negative <;> simp [Double.whole?, Double.signed]

end Double

/-! ## Integers behind a sign -/

namespace Whole

/-- An integer behind a sign; a zero keeps the minus sign. -/
def signed (negative : Bool) (n : Nat) : Whole :=
  if negative && n == 0 then .negZero else .ofInt (Double.signed negative n)

@[simp] theorem toInt_signed (negative : Bool) (n : Nat) :
    (signed negative n).toInt = Double.signed negative n := by
  by_cases hzero : (negative && n == 0) = true
  · rw [signed, if_pos hzero]
    simp only [Bool.and_eq_true, beq_iff_eq] at hzero
    simp [hzero, Double.signed]
  · rw [signed, if_neg hzero, toInt_ofInt]

/-- The number that a signed integer is. -/
theorem toDouble_signed (negative : Bool) (n : Nat) :
    (signed negative n).toDouble = Double.ofRatio negative n 1 := by
  by_cases hzero : n = 0
  · subst hzero
    cases negative <;> rfl
  · rw [signed, if_neg (by simp [hzero])]
    exact Double.ofInt_signed hzero negative

/-- An integer is the one of its sign and its absolute value. -/
theorem signed_natAbs (n : Int) : signed (decide (n < 0)) n.natAbs = .ofInt n := by
  have hzero : ¬(decide (n < 0) && n.natAbs == 0) = true := by
    simp only [Bool.and_eq_true, decide_eq_true_eq, beq_iff_eq]
    omega
  rw [signed, if_neg hzero, Double.signed_natAbs]

/-- An integer of at most 53 bits can be read back, with the sign of its zero. -/
theorem ofDouble?_toDouble {n : Whole} (h : n.toInt.natAbs < 2 ^ 53) :
    ofDouble? n.toDouble = some n := by
  cases n with
  | negZero => rfl
  | ofInt n => exact Double.ofDouble?_ofInt h

end Whole

/-! ## Integers of a width -/

namespace PrimitiveKind

theorem natAbs_lt_of_fits {bits : Nat} {n : Int} (hb : bits ≤ 53)
    (h : PrimitiveKind.fits bits n = true) : n.natAbs < 2 ^ 53 := by
  have hpow : 2 ^ (bits - 1) ≤ 2 ^ 52 := Nat.pow_le_pow_right (by decide) (by omega)
  simp only [PrimitiveKind.fits, Nat.pow_eq, Bool.and_eq_true, decide_eq_true_eq] at h
  omega

end PrimitiveKind

end WarehouseRows
