import WarehouseRows.Proofs.IntegerText

/-!
# Seconds with a fraction

A count of seconds with up to three digits behind the point is rounded to binary64, multiplied by
one thousand, rounded again and cut to an integer. The first rounding moves the milliseconds by at
most half a thousand units of its last place. The second one counts in units of 1024 of these, so
that the milliseconds come back, unless the seconds lie just above a power of two: there it counts
in units of 512, and a number that was rounded down by more than 256 comes back in the unit below
the milliseconds, from which one millisecond is cut. So the milliseconds of a text are read exactly,
but for one millisecond of some texts.

## Main definitions

* `Double.Slips`: the counts of milliseconds that come back one too small.
* `SecondsText`: the texts of seconds before the year 10000.

## Main results

* `Double.truncated?_thousandths`: what comes back of a count of milliseconds.
-/

namespace WarehouseRows

namespace Double

/-- Whether a count of thousandths comes back one too small: its seconds are at most 2.4 % above a
power of two, and the number that is nearest to them is below them by more than 256 and less than
500 thousandths of the unit of its last place. -/
def Slips (n : Nat) : Prop :=
  let bits := Nat.log2 n
  let units := n * 2 ^ (61 - bits)
  1000 * 2 ^ bits ≤ 512 * n ∧ 256 < units % 1000 ∧ units % 1000 < 500

instance : DecidablePred Slips := fun _ =>
  inferInstanceAs (Decidable (_ ∧ _ ∧ _))

/-! ## The two roundings -/

/-- A count of thousandths, moved to the left until it has 53 bits, ends in some zeros. -/
theorem full_of_lt {n : Nat} (hn : n ≠ 0) (hlt : n < 281474976710656) :
    Nat.log2 n ≤ 47 ∧ 4503599627370496 ≤ n * 2 ^ (52 - Nat.log2 n) ∧
      n * 2 ^ (52 - Nat.log2 n) < 9007199254740992 ∧ 32 ∣ n * 2 ^ (52 - Nat.log2 n) := by
  have hlow : 2 ^ Nat.log2 n ≤ n := Nat.log2_self_le hn
  have hhigh : n < 2 ^ (Nat.log2 n + 1) := Nat.lt_log2_self
  have hbits : Nat.log2 n < 48 := (Nat.log2_lt hn).mpr hlt
  refine ⟨by omega, ?_, ?_, ?_⟩
  · calc 4503599627370496 = 2 ^ Nat.log2 n * 2 ^ (52 - Nat.log2 n) := by
          rw [← Nat.pow_add, Nat.add_sub_cancel' (by omega)]
      _ ≤ n * 2 ^ (52 - Nat.log2 n) := Nat.mul_le_mul_right _ hlow
  · calc n * 2 ^ (52 - Nat.log2 n) < 2 ^ (Nat.log2 n + 1) * 2 ^ (52 - Nat.log2 n) :=
          Nat.mul_lt_mul_of_pos_right hhigh (Nat.two_pow_pos _)
      _ = 9007199254740992 := by
          rw [← Nat.pow_add, Nat.add_right_comm, Nat.add_sub_cancel' (by omega)]
  · have hfive : 2 ^ 5 ∣ 2 ^ (52 - Nat.log2 n) := Nat.pow_dvd_pow 2 (by omega)
    exact Nat.dvd_mul_left_of_dvd hfive n

/-- A number that is rounded to thousands moves by what is left over, down if this is less than a
half, and up if it is more. -/
theorem thousands_near {k : Nat} (h : k % 1000 ≠ 500) :
    (k % 1000 < 500 ∧ 1000 * roundHalfEven k 1000 + k % 1000 = k) ∨
      (500 < k % 1000 ∧ 1000 * roundHalfEven k 1000 + k % 1000 = k + 1000) := by
  rw [roundHalfEven]
  repeat' split
  all_goals omega

section

variable {full product : Nat}

/-- In units of 1024, a number within 500 of a count of them is rounded to the count. -/
theorem roundHalfEven_wide (hle : product ≤ 1024 * full + 500) (hge : 1024 * full ≤ product + 500) :
    roundHalfEven product 1024 = full := by
  rw [roundHalfEven]
  repeat' split
  all_goals omega

/-- In units of 512, a number within 500 of an even count of them is rounded to the count or one
more, unless it lies more than a half of the unit below. -/
theorem roundHalfEven_narrow (heven : 2 ∣ full) (hle : product ≤ 512 * full + 500)
    (hge : 512 * full ≤ product + 500) :
    (product + 256 < 512 * full ∧ roundHalfEven product 512 = full - 1) ∨
      (512 * full ≤ product + 256 ∧
        (roundHalfEven product 512 = full ∨ roundHalfEven product 512 = full + 1)) := by
  rw [roundHalfEven]
  repeat' split
  all_goals omega

end

theorem ratio_neg (m u : Nat) : ratio m (-(u : Int)) = (m, 2 ^ u) := by
  rcases Nat.eq_zero_or_pos u with rfl | hpos
  · simp [ratio]
  · rw [ratio, if_neg (by omega), Int.neg_neg, Int.toNat_natCast]
    rfl

/-- The two roundings, where both significands are full: a count of thousandths is counted in units
of `2 ^ -(u + k)`, and the product of this number with one thousand in units of `2 ^ -u`. -/
theorem timesNat_of_units {n u k unit full first second : Nat} (hu : u + k ≤ 1074)
    (hunit : 2 ^ k = unit) (hfull : n * 2 ^ u = full)
    (hfirst : roundHalfEven (unit * full) 1000 = first)
    (hsecond : roundHalfEven (1000 * first) unit = second)
    (hlow : 4503599627370496 * 1000 ≤ unit * full) (hhigh : unit * full < 9007199254740992 * 1000)
    (hcarry : first ≠ 9007199254740992) (hlow' : 4503599627370496 * unit ≤ 1000 * first)
    (hhigh' : 1000 * first < 9007199254740992 * unit) (hcarry' : second ≠ 9007199254740992)
    (negative : Bool) :
    (ofRatio negative n 1000).isFinite = true ∧
      (ofRatio negative n 1000).timesNat 1000 = .finite negative second (-(u : Int)) := by
  have hpow : 2 ^ (u + k) = unit * 2 ^ u := by
    rw [Nat.add_comm, Nat.pow_add, hunit]
  have hunits : n * 2 ^ (u + k) = unit * full := by
    rw [hpow, Nat.mul_left_comm, hfull]
  have hseconds : ofRatio negative n 1000 = .finite negative first (-((u + k : Nat) : Int)) := by
    rw [← hunits] at hfirst hlow hhigh
    rw [ofRatio, nearest_of_units (by decide) hu hlow hhigh (by rwa [hfirst]), hfirst]
  have hunits' : roundHalfEven (1000 * first * 2 ^ u) (2 ^ (u + k)) = second := by
    rw [hpow, roundHalfEven_mul_right _ _ (Nat.two_pow_pos u), hsecond]
  have hproduct : binary64.nearest (1000 * first) (2 ^ (u + k)) = some (second, -(u : Int)) := by
    rw [← hunits'] at hcarry' ⊢
    refine nearest_of_units (Nat.ne_of_gt (Nat.two_pow_pos _)) (by omega) ?_ ?_ hcarry'
    · rw [hpow, ← Nat.mul_assoc]
      exact Nat.mul_le_mul_right _ hlow'
    · rw [hpow, ← Nat.mul_assoc]
      exact Nat.mul_lt_mul_of_pos_right hhigh' (Nat.two_pow_pos _)
  rw [hseconds]
  refine ⟨rfl, ?_⟩
  rw [timesNat, ratio_neg, ofRatio, Nat.mul_comm first, hproduct]

section

variable {n u full : Nat}

/-- Far enough below the next power of two the product is exact. -/
theorem timesNat_wide (hu : u ≤ 1064) (hfull : n * 2 ^ u = full) (hzeros : 32 ∣ full)
    (hlow : 4503599627370496 ≤ full) (hwide : 512 * full < 4503599627370496 * 1000)
    (negative : Bool) :
    (ofRatio negative n 1000).isFinite = true ∧
      (ofRatio negative n 1000).timesNat 1000 = .finite negative full (-(u : Int)) := by
  have hnear := @thousands_near (1024 * full) (by omega)
  generalize hfirst : roundHalfEven (1024 * full) 1000 = first at hnear
  have hsecond : roundHalfEven (1000 * first) 1024 = full :=
    roundHalfEven_wide (by omega) (by omega)
  exact timesNat_of_units (by omega) (by decide : 2 ^ 10 = 1024) hfull hfirst hsecond (by omega)
    (by omega) (by omega) (by omega) (by omega) (by omega) negative

/-- Just above a power of two the product is the count, one unit more, or one unit less. -/
theorem timesNat_narrow (hu : u ≤ 1064) (hfull : n * 2 ^ u = full) (hzeros : 32 ∣ full)
    (hhigh : full < 9007199254740992) (hnarrow : 4503599627370496 * 1000 ≤ 512 * full)
    (negative : Bool) :
    (ofRatio negative n 1000).isFinite = true ∧
      ∃ m, (ofRatio negative n 1000).timesNat 1000 = .finite negative m (-(u : Int)) ∧
        (256 < 512 * full % 1000 ∧ 512 * full % 1000 < 500 ∧ m = full - 1 ∨
          ¬(256 < 512 * full % 1000 ∧ 512 * full % 1000 < 500) ∧ (m = full ∨ m = full + 1)) := by
  have hnear := @thousands_near (512 * full) (by omega)
  generalize hfirst : roundHalfEven (512 * full) 1000 = first at hnear
  have hround := @roundHalfEven_narrow full (1000 * first) (by omega) (by omega) (by omega)
  generalize hsecond : roundHalfEven (1000 * first) 512 = second at hround
  obtain ⟨hfinite, htimes⟩ := timesNat_of_units (by omega) (by decide : 2 ^ 9 = 512) hfull hfirst
    hsecond (by omega) (by omega) (by omega) (by omega) (by omega) (by omega) negative
  refine ⟨hfinite, second, htimes, ?_⟩
  omega

end

/-! ## The count that comes back -/

/-- The units of a significand with 53 bits decide whether a count comes back too small. -/
theorem slips_iff {n full : Nat} (hbits : Nat.log2 n ≤ 52)
    (hfull : n * 2 ^ (52 - Nat.log2 n) = full) :
    Slips n ↔ 4503599627370496 * 1000 ≤ 512 * full ∧
      256 < 512 * full % 1000 ∧ 512 * full % 1000 < 500 := by
  have hunits : n * 2 ^ (61 - Nat.log2 n) = 512 * full := by
    have hexp : 61 - Nat.log2 n = 52 - Nat.log2 n + 9 := by omega
    rw [hexp, Nat.pow_add, ← Nat.mul_assoc, hfull, Nat.mul_comm]
  have hpower : 2 ^ Nat.log2 n * 2 ^ (52 - Nat.log2 n) = 4503599627370496 := by
    rw [← Nat.pow_add, Nat.add_sub_cancel' hbits]
  have hnarrow : 1000 * 2 ^ Nat.log2 n ≤ 512 * n ↔ 4503599627370496 * 1000 ≤ 512 * full := by
    rw [← Nat.mul_le_mul_right_iff (Nat.two_pow_pos (52 - Nat.log2 n)), Nat.mul_assoc, hpower,
      Nat.mul_assoc, hfull, Nat.mul_comm 1000]
  simp only [Slips, hunits, hnarrow]

/-- A count and one unit more than it are cut to the count, and one unit less is cut to the count
before it. -/
theorem cut_near {n u : Nat} (hn : n ≠ 0) (hu : u ≠ 0) :
    n * 2 ^ u / 2 ^ u = n ∧ (n * 2 ^ u + 1) / 2 ^ u = n ∧ (n * 2 ^ u - 1) / 2 ^ u = n - 1 := by
  have hpos := Nat.two_pow_pos u
  have htwo : 1 < 2 ^ u := Nat.one_lt_two_pow hu
  refine ⟨Nat.mul_div_cancel n hpos, ?_, ?_⟩
  · rw [Nat.add_comm, Nat.add_mul_div_right _ _ hpos, Nat.div_eq_of_lt htwo, Nat.zero_add]
  · have hsplit : n * 2 ^ u - 1 = 2 ^ u - 1 + (n - 1) * 2 ^ u := by
      have hself : n * 2 ^ u = (n - 1) * 2 ^ u + 2 ^ u := by
        rw [← Nat.succ_mul, Nat.succ_eq_add_one, Nat.sub_add_cancel (Nat.one_le_iff_ne_zero.mpr hn)]
      omega
    rw [hsplit, Nat.add_mul_div_right _ _ hpos, Nat.div_eq_of_lt (by omega), Nat.zero_add]

/-- What comes back of a count of thousandths that is rounded to a number, multiplied and rounded
again: the count, or one less. -/
theorem truncated?_thousandths {n : Nat} (hlt : n < 281474976710656) (negative : Bool) :
    (ofRatio negative n 1000).isFinite = true ∧
      ((ofRatio negative n 1000).timesNat 1000).truncated? =
        some (signed negative (if Slips n then n - 1 else n)) := by
  by_cases hn : n = 0
  · subst hn
    have hzero (den : Nat) : ofRatio negative 0 den = .finite negative 0 (-1074) := rfl
    rw [hzero, timesNat, ratio_zero_fst, Nat.zero_mul, hzero, truncated?, ratio_zero_fst,
      Nat.zero_div, Nat.zero_sub, ite_self]
    exact ⟨rfl, rfl⟩
  obtain ⟨hbits, hlow, hhigh, hzeros⟩ := full_of_lt hn hlt
  obtain ⟨hexact, hmore, hless⟩ := @cut_near n (52 - Nat.log2 n) hn (by omega)
  have hslips := @slips_iff n _ (by omega) rfl
  have hcut (m : Nat) : (Double.finite negative m (-((52 - Nat.log2 n : Nat) : Int))).truncated? =
      some (signed negative (m / 2 ^ (52 - Nat.log2 n))) := by
    rw [truncated?, ratio_neg]
  by_cases hnarrow : 4503599627370496 * 1000 ≤ 512 * (n * 2 ^ (52 - Nat.log2 n))
  · obtain ⟨hfinite, m, htimes, hm⟩ :=
      timesNat_narrow (by omega) rfl hzeros hhigh hnarrow negative
    refine ⟨hfinite, ?_⟩
    rw [htimes, hcut]
    rcases hm with ⟨hmore256, hless500, rfl⟩ | ⟨hnot, rfl | rfl⟩
    · rw [hless, if_pos (hslips.mpr ⟨hnarrow, hmore256, hless500⟩)]
    · rw [hexact, if_neg fun h => hnot (hslips.mp h).2]
    · rw [hmore, if_neg fun h => hnot (hslips.mp h).2]
  · obtain ⟨hfinite, htimes⟩ := timesNat_wide (by omega) rfl hzeros hlow (by omega) negative
    refine ⟨hfinite, ?_⟩
    rw [htimes, hcut, hexact, if_neg fun h => hnarrow (hslips.mp h).1]

/-- Whole seconds, halves, quarters and eighths come back as they are: so far behind the point they
have nothing to be rounded. -/
theorem not_slips_of_dvd {n : Nat} (hbits : Nat.log2 n ≤ 58) (h : 125 ∣ n) : ¬Slips n := by
  rintro ⟨_, hmore, _⟩
  have height : 8 ∣ 2 ^ (61 - Nat.log2 n) := Nat.pow_dvd_pow 2 (by omega : 3 ≤ 61 - Nat.log2 n)
  have hunits : 1000 ∣ n * 2 ^ (61 - Nat.log2 n) := Nat.mul_dvd_mul h height
  omega

theorem not_slips_zero : ¬Slips 0 :=
  not_slips_of_dvd (by decide) (by decide)

/-- One less in the absolute value is one nearer to zero. -/
theorem signed_slipped (negative : Bool) (n : Nat) :
    signed negative (if Slips n then n - 1 else n) =
      if Slips n then signed negative n - (signed negative n).sign else signed negative n := by
  split
  · rename_i hslips
    have hpos : 0 < n := by
      refine Nat.pos_of_ne_zero ?_
      rintro rfl
      exact not_slips_zero hslips
    cases negative with
    | true =>
      have hsign : (-(n : Int)).sign = -1 := Int.sign_eq_neg_one_of_neg (by omega)
      simp only [signed, if_true, hsign]
      omega
    | false =>
      have hsign : (n : Int).sign = 1 := Int.sign_eq_one_of_pos (by omega)
      simp only [signed, Bool.false_eq_true, if_false, hsign]
      omega
  · rfl

/-! ## Decimal fractions -/

/-- A decimal fraction of few digits denotes the number nearest to it. -/
theorem ofDecimal_fraction {digits f : Nat} (hdigits : digits < 10 ^ 16) (hf : f ≤ 3)
    (negative : Bool) :
    ofDecimal negative digits (-(f : Int)) = ofRatio negative digits (10 ^ f) := by
  by_cases hzero : digits = 0
  · subst hzero
    rfl
  have hfew : digitCount digits ≤ 16 := by
    refine Nat.not_lt.mp fun hmany => ?_
    exact absurd (pow_le_of_lt_digitCount hzero hmany) (Nat.not_le.mpr hdigits)
  rw [ofDecimal, if_neg hzero, if_neg (by omega), if_neg (by omega)]
  rcases Nat.eq_zero_or_pos f with rfl | hpos
  · simp
  · rw [if_neg (by omega), Int.neg_neg, Int.toNat_natCast]
    rfl

/-- A decimal fraction of at most three digits behind the point is a number of thousandths. -/
theorem ofDecimal_thousandths {digits f : Nat} (hdigits : digits < 10 ^ 16) (hf : f ≤ 3)
    (negative : Bool) :
    ofDecimal negative digits (-(f : Int)) = ofRatio negative (digits * 10 ^ (3 - f)) 1000 := by
  have hpow : 10 ^ f * 10 ^ (3 - f) = 1000 := by
    rw [← Nat.pow_add, Nat.add_sub_cancel' hf]
  rw [ofDecimal_fraction hdigits hf, ofRatio, ofRatio, ← hpow,
    nearest_mul_right digits (Nat.ne_of_gt (Nat.pow_pos (by decide))) (Nat.pow_pos (by decide))]

end Double

/-! ## Texts of seconds -/

/-- A text of seconds: an optional minus sign, digits, and up to three digits behind a point. The
seconds lie before the year 10000. -/
structure SecondsText where
  negative : Bool
  whole : List Char
  fraction : List Char
  isRun : Text.IsRun whole
  digits : ∀ c ∈ fraction, c.isDigit = true
  short : fraction.length ≤ 3
  lt : Text.digitsValue whole < 253402300800

namespace SecondsText

variable (x : SecondsText)

/-- The digits with the point, if there are digits behind it. -/
def mantissa : List Char :=
  x.whole ++ Text.fractionChars x.fraction

/-- The text. -/
def text : String :=
  String.ofList (Text.signChars x.negative ++ x.mantissa)

/-- The thousandths of a second that the text denotes, without the sign. -/
def thousandths : Nat :=
  Text.digitsValue (x.whole ++ x.fraction) * 10 ^ (3 - x.fraction.length)

/-- The milliseconds that the text denotes. -/
def millis : Int :=
  Double.signed x.negative x.thousandths

theorem isMantissa : Double.IsMantissa x.mantissa x.whole x.fraction := by
  rw [mantissa]
  by_cases hempty : x.fraction = []
  · rw [hempty, Text.fractionChars_nil, List.append_nil]
    exact .whole x.isRun
  · rw [Text.fractionChars_of_ne_nil hempty]
    exact .pointed x.isRun x.digits

/-- The digits in front of the point bound all digits. -/
theorem digitsValue_lt_bound :
    Text.digitsValue (x.whole ++ x.fraction) < 253402300800 * 10 ^ x.fraction.length := by
  have hdigits : ∀ c ∈ x.whole ++ x.fraction, c.isDigit = true := by
    intro c hc
    exact (List.mem_append.mp hc).elim (x.isRun.digits c) (x.digits c)
  have hwhole := Text.digitsValue_take x.whole.length hdigits
  rw [List.take_left, List.length_append, Nat.add_sub_cancel_left] at hwhole
  rw [← Nat.div_lt_iff_lt_mul (Nat.pow_pos (by decide)), ← hwhole]
  exact x.lt

theorem thousandths_lt : x.thousandths < 253402300800000 := by
  have hpow : 10 ^ x.fraction.length * 10 ^ (3 - x.fraction.length) = 1000 := by
    rw [← Nat.pow_add, Nat.add_sub_cancel' x.short]
  calc x.thousandths
      < 253402300800 * 10 ^ x.fraction.length * 10 ^ (3 - x.fraction.length) :=
        Nat.mul_lt_mul_of_pos_right x.digitsValue_lt_bound (Nat.pow_pos (by decide))
    _ = 253402300800000 := by rw [Nat.mul_assoc, hpow]

/-- The number of seconds that the text denotes. -/
theorem ofText_text : Double.ofText x.text = Double.ofRatio x.negative x.thousandths 1000 := by
  have hfew : Text.digitsValue (x.whole ++ x.fraction) < 10 ^ 16 := by
    have hpow : 10 ^ x.fraction.length ≤ 10 ^ 3 := Nat.pow_le_pow_right (by decide) x.short
    have := Nat.mul_le_mul_left 253402300800 hpow
    have := x.digitsValue_lt_bound
    omega
  have hliteral := Double.ofText_literal (Text.isSign_signChars x.negative) x.isMantissa .none
  rw [List.append_nil, Int.zero_sub, Double.ofDecimal_thousandths hfew x.short] at hliteral
  exact hliteral

theorem trimChars_text : (Text.trimChars x.text.toList).isEmpty = false := by
  have hblank := Double.isBlank_literal (Text.isSign_signChars x.negative) x.isMantissa .none
  rw [List.append_nil] at hblank
  rw [text, String.toList_ofList, Text.trimChars_of_no_blank hblank]
  simp [x.isMantissa.ne_nil]

end SecondsText

namespace Timestamp

/-- What is read from a text of seconds: its milliseconds, or one millisecond nearer to zero. -/
theorem parseEpochSeconds_text (x : SecondsText) :
    parseEpochSeconds x.text =
      .ok (.at (if Double.Slips x.millis.natAbs then x.millis - x.millis.sign else x.millis)) := by
  have hlt := x.thousandths_lt
  obtain ⟨hfinite, hcut⟩ := @Double.truncated?_thousandths x.thousandths (by omega) x.negative
  have hrange : (if Double.Slips x.thousandths then x.thousandths - 1 else x.thousandths) ≤
      Instant.maxDays * Instant.millisPerDay := by
    rw [Instant.maxDays, Instant.millisPerDay]
    split <;> omega
  have hnumber : Instant.ofNumber ((Double.ofRatio x.negative x.thousandths 1000).timesNat 1000) =
      .at (Double.signed x.negative
        (if Double.Slips x.thousandths then x.thousandths - 1 else x.thousandths)) := by
    rw [Instant.ofNumber, hcut]
    exact if_pos (by rwa [Double.natAbs_signed])
  simp only [parseEpochSeconds, x.trimChars_text, x.ofText_text, Bool.false_eq_true, if_false,
    hfinite, if_true, hnumber, SecondsText.millis, Double.natAbs_signed, Double.signed_slipped]

/-- One second and one millisecond is read as one second. -/
theorem parseEpochSeconds_slip :
    ∃ x : SecondsText, x.text = "1.001" ∧ x.millis = 1001 ∧
      parseEpochSeconds "1.001" = .ok (.at 1000) := by
  have hdigits : ∀ c ∈ ['0', '0', '1'], c.isDigit = true := List.all_eq_true.mp rfl
  exact ⟨⟨false, ['1'], ['0', '0', '1'], by decide, hdigits, by decide, by decide⟩, rfl, rfl, rfl⟩

end Timestamp

end WarehouseRows
