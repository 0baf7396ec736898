import Mathlib.Algebra.Order.Ring.Int
import WarehouseRows.Decimal
import WarehouseRows.Proofs.Outcome
import WarehouseRows.Proofs.Overflow

/-!
# Room for digits

Whether an integer is too large is reckoned by the words of its factors, and the difference of two
scales is a binary64 number. None of this shows as long as there are at most three hundred million
digits, zeros among them: then every power and every product on the way is small enough, and every
difference exact. With more digits an operation may fail; if it does not, its result is exact all
the same, since a difference that was rounded is too large for the exponent of a power.

## Main definitions

* `Decimal.HasRoom`: whether an integer and the zeros behind it have so few digits.

## Main results

* `Decimal.raised_of_hasRoom`, `Decimal.raised_eq_ok`: zeros put behind an integer.
* `Decimal.lowered_of_le`, `Decimal.lowered_eq_ok`: zeros taken from its end.
* `Decimal.exists_text_of_hasRoom`: the decimals that surely have a text.
-/

namespace WarehouseRows.Decimal

open Double

/-! ## Powers and products -/

theorem powerOfTen_of_le {n : Nat} (h : n ≤ largestPower) : powerOfTen n = .ok (10 ^ n) := by
  rw [powerOfTen, if_pos h, Nat.pow_eq]
  push_cast
  rfl

theorem powerOfTen_of_gt {n : Nat} (h : largestPower < n) : powerOfTen n = .error tooLarge := by
  rw [powerOfTen, if_neg (Nat.not_le.mpr h)]

theorem powerOfTen_eq_ok {n : Nat} {k : Int} (h : powerOfTen n = .ok k) :
    n ≤ largestPower ∧ k = 10 ^ n := by
  by_cases hle : n ≤ largestPower
  · exact ⟨hle, (Except.ok.inj ((powerOfTen_of_le hle).symm.trans h)).symm⟩
  · exact absurd ((powerOfTen_of_gt (Nat.not_le.mp hle)).symm.trans h) (by simp)

theorem powerOfTen_eq_error {n : Nat} {f : Failure} (h : powerOfTen n = .error f) :
    f = tooLarge := by
  rw [powerOfTen] at h
  split at h
  · exact absurd h (by simp)
  · exact (Except.error.inj h).symm

theorem product_eq_ok {a b k : Int} (h : product a b = .ok k) : k = a * b := by
  rw [product] at h
  split at h
  · exact (Except.ok.inj h).symm
  · exact absurd h (by simp)

theorem product_eq_error {a b : Int} {f : Failure} (h : product a b = .error f) : f = tooLarge := by
  rw [product] at h
  split at h
  · exact absurd h (by simp)
  · exact (Except.error.inj h).symm

/-- Zeros that are put behind an integer multiply it by a power of ten. -/
theorem timesPower_eq_ok {n k : Int} {zeros : Nat} (h : timesPower n zeros = .ok k) :
    zeros ≤ largestPower ∧ k = n * 10 ^ zeros := by
  rw [timesPower] at h
  split at h
  · rename_i hzero
    obtain rfl := Except.ok.inj h
    simp [hzero]
  · obtain ⟨factor, hfactor, hproduct⟩ := Outcome.bind_eq_ok.mp h
    obtain ⟨hle, rfl⟩ := powerOfTen_eq_ok hfactor
    exact ⟨hle, product_eq_ok hproduct⟩

theorem timesPower_of_gt (n : Int) {zeros : Nat} (h : largestPower < zeros) :
    timesPower n zeros = .error tooLarge := by
  rw [timesPower, if_neg (Nat.ne_zero_of_lt h), powerOfTen_of_gt h]
  rfl

theorem timesPower_eq_error {n : Int} {zeros : Nat} {f : Failure}
    (h : timesPower n zeros = .error f) : f = tooLarge := by
  rw [timesPower] at h
  split at h
  · exact absurd h (by simp)
  · rcases Outcome.bind_eq_error.mp h with hpower | ⟨factor, -, hproduct⟩
    · exact powerOfTen_eq_error hpower
    · exact product_eq_error hproduct

/-! ## Three hundred million digits -/

/-- Whether the digits of an integer and so many zeros come to at most three hundred million. -/
def HasRoom (n : Int) (zeros : Nat) : Prop :=
  ∃ digits, n.natAbs < 10 ^ digits ∧ digits + zeros ≤ 300000000

/-- There is room for an integer that is no larger, with zeros that are no more. -/
theorem HasRoom.mono {n k : Int} {zeros fewer : Nat} (h : HasRoom n zeros)
    (hn : k.natAbs ≤ n.natAbs) (hzeros : fewer ≤ zeros) : HasRoom k fewer := by
  obtain ⟨digits, hdigits, hroom⟩ := h
  exact ⟨digits, hn.trans_lt hdigits, by omega⟩

theorem HasRoom.zeros_le {n : Int} {zeros : Nat} (h : HasRoom n zeros) : zeros ≤ 300000000 := by
  obtain ⟨digits, -, hroom⟩ := h
  omega

/-- Three decimal digits take no more than ten bits. -/
theorem three_mul_log2_le {n digits : Nat} (h : n < 10 ^ digits) : 3 * n.log2 ≤ 10 * digits := by
  by_cases hn : n = 0
  · simp [hn]
  · apply (Nat.pow_le_pow_iff_right (by decide : 1 < 2)).mp
    calc 2 ^ (3 * n.log2) = (2 ^ n.log2) ^ 3 := by rw [Nat.mul_comm, Nat.pow_mul]
      _ ≤ (10 ^ digits) ^ 3 := Nat.pow_le_pow_left ((Nat.log2_self_le hn).trans h.le) 3
      _ = (10 ^ 3) ^ digits := by rw [← Nat.pow_mul, Nat.mul_comm, Nat.pow_mul]
      _ ≤ (2 ^ 10) ^ digits := Nat.pow_le_pow_left (by decide) digits
      _ = 2 ^ (10 * digits) := (Nat.pow_mul ..).symm

/-- With so few digits the words of an integer and of a power of ten are there. -/
theorem wordCount_add_le {n : Int} {zeros : Nat} (h : HasRoom n zeros) :
    wordCount n + wordCount (10 ^ zeros) ≤ integerWords := by
  obtain ⟨digits, hdigits, hroom⟩ := h
  have hpow : ((10 : Int) ^ zeros).natAbs < 10 ^ (zeros + 1) := by
    rw [Int.natAbs_pow]
    exact Nat.pow_lt_pow_right (by decide) (Nat.lt_succ_self zeros)
  have hbits := three_mul_log2_le hdigits
  have hpowBits := three_mul_log2_le hpow
  rw [wordCount, wordCount, integerWords]
  omega

theorem timesPower_of_hasRoom {n : Int} {zeros : Nat} (h : HasRoom n zeros) :
    timesPower n zeros = .ok (n * 10 ^ zeros) := by
  by_cases hzero : zeros = 0
  · rw [timesPower, if_pos hzero, hzero, pow_zero, mul_one]
  · have hle : zeros ≤ largestPower := h.zeros_le.trans (by decide)
    rw [timesPower, if_neg hzero, powerOfTen_of_le hle, Outcome.ok_bind, product,
      if_pos (Or.inr (Or.inr (wordCount_add_le h)))]

/-! ## Differences of scales -/

theorem integerOf_ofInt {n : Int} (h : n.natAbs < 2 ^ 53) : integerOf (.ofInt n) = .ok n := by
  rw [integerOf, whole?_ofInt h]

/-- A difference that is rounded is too large for the exponent of a power. -/
theorem toNat_of_integerOf {gap : Nat} {n : Int} (h : integerOf (.ofInt gap) = .ok n)
    (hle : n.toNat ≤ largestPower) : n.toNat = gap := by
  by_cases hsmall : gap < 2 ^ 53
  · have hexact : integerOf (.ofInt gap) = .ok (gap : Int) := integerOf_ofInt (by omega)
    obtain rfl := Except.ok.inj (hexact.symm.trans h)
    exact Int.toNat_natCast gap
  · have hwhole : (Double.ofInt gap).whole? = some n := by
      rw [integerOf] at h
      split at h
      · rename_i hn
        rw [hn, Except.ok.inj h]
      · exact absurd h (by simp)
    -- a difference of more than 53 bits stays one of 53 when it is rounded
    have hsign : decide ((gap : Int) < 0) = false := by simp
    rw [ofInt, hsign, Int.natAbs_natCast] at hwhole
    obtain ⟨p, rfl, hp⟩ := exists_signed_of_whole? (Nat.not_lt.mp hsmall) hwhole
    simp only [signed, Bool.false_eq_true, if_false, largestPower] at hle
    omega

theorem name_of_integerOf_error {x : Double} {f : Failure} (h : integerOf x = .error f) :
    f.name = "RangeError" := by
  rw [integerOf] at h
  split at h
  · exact absurd h (by simp)
  · rw [← Except.error.inj h]
    rfl

/-! ## Zeros put behind an integer -/

theorem raised_zero (u : Int) : raised u (.ofInt 0) = .ok u := by
  have hzero : integerOf (.ofInt 0) = .ok 0 := integerOf_ofInt (by decide)
  rw [raised, hzero]
  rfl

/-- Zeros are put behind an integer if there is room for them; for none, no room is needed. -/
theorem raised_of_hasRoom {u : Int} {gap : Nat} (h : 0 < gap → HasRoom u gap) :
    raised u (.ofInt gap) = .ok (u * 10 ^ gap) := by
  rcases Nat.eq_zero_or_pos gap with rfl | hpos
  · rw [pow_zero, mul_one]
    exact raised_zero u
  · have hle := (h hpos).zeros_le
    have hgap : integerOf (.ofInt gap) = .ok (gap : Int) := integerOf_ofInt (by omega)
    rw [raised, hgap, Outcome.ok_bind, Int.toNat_natCast, timesPower_of_hasRoom (h hpos)]

theorem raised_eq_ok {u k : Int} {gap : Nat} (h : raised u (.ofInt gap) = .ok k) :
    k = u * 10 ^ gap := by
  obtain ⟨zeros, hzeros, htimes⟩ := Outcome.bind_eq_ok.mp h
  obtain ⟨hle, rfl⟩ := timesPower_eq_ok htimes
  rw [toNat_of_integerOf hzeros hle]

/-- Putting zeros behind an integer fails where the difference is no integer, or for a size. -/
theorem raised_eq_error {u : Int} {gap : Double} {f : Failure} (h : raised u gap = .error f) :
    integerOf gap = .error f ∨ f = tooLarge := by
  rcases Outcome.bind_eq_error.mp h with hgap | ⟨zeros, -, htimes⟩
  · exact Or.inl hgap
  · exact Or.inr (timesPower_eq_error htimes)

theorem name_of_raised_error {u : Int} {gap : Double} {f : Failure}
    (h : raised u gap = .error f) : f.name = "RangeError" := by
  rcases raised_eq_error h with hgap | rfl
  · exact name_of_integerOf_error hgap
  · rfl

/-! ## Texts -/

/-- A decimal of finitely many places. -/
abbrev ofPlaces (unscaled : Int) (places : Whole) : Decimal :=
  ⟨unscaled, .places places⟩

/-- What a decimal has for a text, if it has one. -/
theorem text_eq_ok {u : Int} {n : Whole} {text : String} (h : (ofPlaces u n).text = .ok text) :
    textLength u n.toInt.toNat ≤ Text.longest ∧
      text = plainText (u * 10 ^ (-n.toInt).toNat) n.toInt.toNat := by
  simp only [Decimal.text] at h
  split at h
  · exact absurd h (by simp)
  · rename_i hlong
    obtain ⟨k, hk, rfl⟩ := Outcome.map_eq_ok.mp h
    rw [(timesPower_eq_ok hk).2]
    exact ⟨Nat.not_lt.mp hlong, rfl⟩

/-- A decimal without a text fails for a size or for its scale. -/
theorem name_of_text_error {d : Decimal} {f : Failure} (h : d.text = .error f) :
    f.name = "RangeError" := by
  rw [text] at h
  split at h
  · split at h
    · rw [← Except.error.inj h]
      rfl
    · rw [timesPower_eq_error (Outcome.map_eq_error.mp h)]
      rfl
  · rw [← Except.error.inj h]
    rfl
  · rw [← Except.error.inj h]
    rfl

theorem length_repr_le {n digits : Nat} (h : n < 10 ^ digits) :
    (Nat.repr n).toList.length ≤ digits + 1 := by
  rw [Nat.toList_repr]
  refine (Nat.length_toDigits_le_iff (by decide) (Nat.succ_pos digits)).mpr (h.trans ?_)
  exact Nat.pow_lt_pow_right (by decide) (Nat.lt_succ_self digits)

theorem length_toString_le {n : Int} {digits : Nat} (h : n.natAbs < 10 ^ digits) :
    (toString n).length ≤ digits + 2 := by
  have hdigits := length_repr_le h
  have hsign : (Text.signChars (decide (n < 0))).length ≤ 1 := by
    rw [Text.signChars]
    split <;> simp
  rw [← String.length_toList, Text.toList_toString, List.length_append]
  omega

/-- Plain notation has the digits of the integer, the places, and little else. -/
theorem length_plainText_le (places : Nat) {k : Int} {digits : Nat} (h : k.natAbs < 10 ^ digits) :
    (plainText k places).length ≤ digits + places + 4 := by
  rw [plainText]
  by_cases hzero : places = 0
  · have hlength := length_toString_le h
    rw [if_pos hzero]
    omega
  · have hdigits := length_repr_le h
    have hpadded : (Text.padNat (places + 1) k.natAbs).length ≤ digits + places + 2 := by
      simp only [Text.padNat, Text.padLeft, List.length_append, List.length_replicate]
      omega
    have hsign : (if k < 0 then ['-'] else []).length ≤ 1 := by
      split <;> simp
    simp only [hzero, if_false, String.length_ofList, List.length_append, List.length_cons,
      List.length_take, List.length_drop]
    omega

/-- With so few digits, those of its scale among them, a decimal has a text. -/
theorem exists_text_of_hasRoom {u : Int} {n : Whole} (h : HasRoom u n.toInt.natAbs) :
    ∃ text, (ofPlaces u n).text = .ok text ∧ text.length ≤ 300000004 := by
  have hzeros : HasRoom u (-n.toInt).toNat := h.mono le_rfl (by omega)
  have hlong : ¬Text.longest < textLength u n.toInt.toNat := by
    have hplaces := h.zeros_le
    rw [textLength, Text.longest]
    split <;> omega
  refine ⟨plainText (u * 10 ^ (-n.toInt).toNat) n.toInt.toNat, ?_, ?_⟩
  · simp only [text, hlong, if_false, timesPower_of_hasRoom hzeros]
    rfl
  · obtain ⟨digits, hdigits, hroom⟩ := h
    have hproduct : (u * 10 ^ (-n.toInt).toNat).natAbs < 10 ^ (digits + (-n.toInt).toNat) := by
      rw [Int.natAbs_mul, Int.natAbs_pow, Nat.pow_add]
      exact Nat.mul_lt_mul_of_pos_right hdigits (Nat.pow_pos (by decide))
    have hlength := length_plainText_le n.toInt.toNat hproduct
    omega

/-! ## Zeros taken from the end of an integer -/

variable {d : Decimal} {target : String} {gap : Nat}

/-- Digits that would be lost are a loss of precision, unless this is too long to say. -/
theorem digitsLost_cases (text target : String) :
    (∃ e, digitsLost text target = .conversion e ∧ e.code = .precisionLoss) ∨
      (digitsLost text target).name = "RangeError" := by
  rw [digitsLost]
  split
  · exact Or.inr rfl
  · exact Or.inl ⟨_, rfl, rfl⟩

theorem lowered_eq_ok {k : Int} (h : d.lowered (.ofInt gap) target = .ok k) :
    k * 10 ^ gap = d.unscaled := by
  obtain ⟨zeros, hzeros, h⟩ := Outcome.bind_eq_ok.mp h
  obtain ⟨divisor, hdivisor, h⟩ := Outcome.bind_eq_ok.mp h
  obtain ⟨hle, rfl⟩ := powerOfTen_eq_ok hdivisor
  rw [toNat_of_integerOf hzeros hle] at h
  split at h
  · rename_i hrest
    obtain rfl := Except.ok.inj h
    exact Int.tdiv_mul_cancel (Int.dvd_of_tmod_eq_zero hrest)
  · obtain ⟨text, -, herror⟩ := Outcome.bind_eq_ok.mp h
    exact absurd herror (by simp)

/-- Taking zeros from the end of an integer fails where the difference is no integer, for a size, or
for want of them. -/
theorem lowered_eq_error {gap : Double} {f : Failure} (h : d.lowered gap target = .error f) :
    integerOf gap = .error f ∨ f = tooLarge ∨
      ∃ zeros, integerOf gap = .ok zeros ∧ zeros.toNat ≤ largestPower ∧
        ¬(10 : Int) ^ zeros.toNat ∣ d.unscaled ∧
        (d.text = .error f ∨ ∃ text, f = digitsLost text target) := by
  rcases Outcome.bind_eq_error.mp h with hgap | ⟨zeros, hzeros, h⟩
  · exact Or.inl hgap
  rcases Outcome.bind_eq_error.mp h with hpower | ⟨divisor, hdivisor, h⟩
  · exact Or.inr (Or.inl (powerOfTen_eq_error hpower))
  obtain ⟨hle, rfl⟩ := powerOfTen_eq_ok hdivisor
  split at h
  · exact absurd h (by simp [pure, Except.pure])
  · rename_i hrest
    have hdvd : ¬(10 : Int) ^ zeros.toNat ∣ d.unscaled := fun hdvd =>
      hrest (Int.tmod_eq_zero_of_dvd hdvd)
    refine Or.inr (Or.inr ⟨zeros, hzeros, hle, hdvd, ?_⟩)
    rcases Outcome.bind_eq_error.mp h with htext | ⟨text, -, hlost⟩
    · exact Or.inl htext
    · exact Or.inr ⟨text, (Except.error.inj hlost).symm⟩

/-- A loss of precision is a want of zeros; all else that fails does so for a size. -/
theorem precisionLoss_or_name_of_lowered {f : Failure}
    (h : d.lowered (.ofInt gap) target = .error f) :
    (¬(10 : Int) ^ gap ∣ d.unscaled ∧ ∃ e, f = .conversion e ∧ e.code = .precisionLoss) ∨
      f.name = "RangeError" := by
  rcases lowered_eq_error h with hgap | rfl | ⟨zeros, hzeros, hle, hdvd, htext | ⟨text, rfl⟩⟩
  · exact Or.inr (name_of_integerOf_error hgap)
  · exact Or.inr rfl
  · exact Or.inr (name_of_text_error htext)
  · rw [toNat_of_integerOf hzeros hle] at hdvd
    exact (digitsLost_cases text target).imp_left (⟨hdvd, ·⟩)

/-- With so few digits, zeros are taken away just if they are there. -/
theorem lowered_of_le (h : gap ≤ 300000000) :
    d.lowered (.ofInt gap) target =
      if (10 : Int) ^ gap ∣ d.unscaled then .ok (d.unscaled.tdiv (10 ^ gap))
      else d.text >>= fun text => .error (digitsLost text target) := by
  have hgap : integerOf (.ofInt gap) = .ok (gap : Int) := integerOf_ofInt (by omega)
  have hpower : gap ≤ largestPower := h.trans (by decide)
  simp only [lowered, hgap, Outcome.ok_bind, Int.toNat_natCast, powerOfTen_of_le hpower,
    Int.dvd_iff_tmod_eq_zero]
  rfl

/-- Then there is also room to say that they are not. -/
theorem exists_precisionLoss {u : Int} {m : Whole} (hgap : gap ≤ 300000000)
    (hroom : HasRoom u m.toInt.natAbs) (htarget : target.length ≤ 100)
    (hdvd : ¬(10 : Int) ^ gap ∣ u) :
    ∃ e, (ofPlaces u m).lowered (.ofInt gap) target = .error (.conversion e) ∧
      e.code = .precisionLoss := by
  obtain ⟨text, htext, hlength⟩ := exists_text_of_hasRoom hroom
  have hshort : ¬Text.longest < (lossMessage text target).length := by
    have hlead : "Decimal ".length = 8 := rfl
    have hmiddle : " cannot be represented with scale ".length = 34 := rfl
    simp only [lossMessage, toString, String.length_append, hlead, hmiddle, Text.longest]
    omega
  rw [lowered_of_le hgap, if_neg hdvd, htext, Outcome.ok_bind, digitsLost, if_neg hshort]
  exact ⟨_, rfl, rfl⟩

end WarehouseRows.Decimal
