import WarehouseRows.Proofs.IntegerText

/-!
# Numbers that are read as narrow integers

A number is written as an integer literal if it is an integer of no more than 53 bits, and also if
it is a greater number whose shortest digits end before the point. Such a literal stands for an
integer of more than 53 bits, so no narrow integer is read from it. A number with a fraction is
never written as an integer literal: its shortest digits reach behind the point, and digits that
read back as the number always exist. So exactly the numbers that are integers of a narrow width
are read back as such.

## Main results

* `Double.le_of_count_le_point`: what the digits of a greater number stand for.
* `PrimitiveKind.parseBounded_text`: which numbers are read from their texts.
-/

namespace WarehouseRows

namespace Double

/-! ## The place of the point -/

/-- A fraction with digits in front of the point has no more of them than its place says. -/
theorem div_lt_pow_pointPlace (num den : Nat) :
    num / den < 10 ^ (pointPlace num den).toNat := by
  by_cases hle : den ≤ num
  · rw [pointPlace, if_pos hle, Int.toNat_natCast]
    exact lt_pow_digitCount _
  · rw [Nat.div_eq_of_lt (by omega)]
    exact Nat.pow_pos (by decide)

/-- A positive fraction below one lies between two powers of ten, and its place tells which. -/
theorem exists_pointPlace_of_lt {num den : Nat} (hnum : num ≠ 0) (hlt : num < den) :
    ∃ k : Nat, pointPlace num den = -(k : Int) ∧ den ≤ 10 ^ (k + 1) * num ∧ 10 ^ k * num < den := by
  have hceil : (den + num - 1) / num - 1 = (den - 1) / num := by
    have hsplit : den + num - 1 = den - 1 + num := by omega
    rw [hsplit, Nat.add_div_right _ (Nat.pos_of_ne_zero hnum),
      Nat.add_sub_cancel]
  have hquotient : (den - 1) / num ≠ 0 := by
    apply Nat.ne_of_gt
    exact Nat.div_pos (by omega) (Nat.pos_of_ne_zero hnum)
  have hhigh := lt_pow_digitCount ((den - 1) / num)
  obtain ⟨k, hk⟩ : ∃ k, digitCount ((den - 1) / num) = k + 1 := by
    refine ⟨digitCount ((den - 1) / num) - 1, ?_⟩
    have : digitCount ((den - 1) / num) ≠ 0 := by
      intro hzero
      rw [hzero] at hhigh
      omega
    omega
  have hlow := pow_le_of_lt_digitCount hquotient (by omega : k < digitCount ((den - 1) / num))
  refine ⟨k, ?_, ?_, ?_⟩
  · rw [pointPlace, if_neg (by omega), hceil, hk]
    omega
  · rw [hk] at hhigh
    have := (Nat.div_lt_iff_lt_mul (Nat.pos_of_ne_zero hnum)).mp hhigh
    omega
  · have := (Nat.le_div_iff_mul_le (Nat.pos_of_ne_zero hnum)).mp hlow
    omega

/-! ## Digits that read back -/

/-- Digits that read back as a number that is not zero are rounded to it as a fraction. -/
theorem nearest_of_ofDecimal {units m : Nat} {step e : Int} (hm : m ≠ 0)
    (h : ofDecimal false units step = .finite false m e) :
    (0 ≤ step ∧ binary64.nearest (units * Nat.pow 10 step.toNat) 1 = some (m, e)) ∨
      (step < 0 ∧ binary64.nearest units (Nat.pow 10 (-step).toNat) = some (m, e)) := by
  have hzero : ofRatio false 0 1 ≠ .finite false m e := by
    intro hzero
    exact hm (Double.finite.inj hzero).2.1.symm
  have hnearest {num den : Nat} (hratio : ofRatio false num den = .finite false m e) :
      binary64.nearest num den = some (m, e) := by
    rw [ofRatio] at hratio
    split at hratio
    · exact absurd hratio (by simp)
    · rename_i m' e' hsome
      obtain ⟨_, rfl, rfl⟩ := Double.finite.inj hratio
      exact hsome
  simp only [ofDecimal] at h
  split at h
  · exact absurd h hzero
  split at h
  · exact absurd h (by simp)
  split at h
  · exact absurd h hzero
  split at h
  · rename_i hstep
    exact Or.inl ⟨hstep, hnearest h⟩
  · rename_i hstep
    exact Or.inr ⟨by omega, hnearest h⟩

/-- A candidate has digits that read back. -/
theorem exists_units_of_candidate? {m count : Nat} {e point : Int} {d : DecimalDigits}
    (h : candidate? m e point count = some d) :
    ∃ units, ofDecimal false units (point - count) = .finite false m e ∧
      d = digitsOfUnits units count point := by
  simp only [candidate?, Option.map_eq_some_iff] at h
  obtain ⟨units, hfound, rfl⟩ := h
  refine ⟨units, ?_, rfl⟩
  simpa using List.find?_some hfound

/-- The unit of the least exponent lies between two powers of ten. -/
theorem pow_bounds_of_least :
    10 ^ 307 * 4503599627370496 ≤ Nat.pow 2 (-(-1074 : Int)).toNat ∧
      2 * Nat.pow 2 (-(-1074 : Int)).toNat ≤ 10 ^ 324 := by
  decide +kernel

/-- A number of less than 53 bits with the least exponent lies between powers of ten, so that 17
digits reach behind its last bit. -/
theorem bounds_of_least {k m unit : Nat} (hunit : unit = Nat.pow 2 (-(-1074 : Int)).toNat)
    (hm : m ≠ 0) (hlt : m < 4503599627370496) (hnear : unit ≤ 10 ^ (k + 1) * m)
    (hless : 10 ^ k * m < unit) : 2 * unit ≤ 10 ^ (k + 17) ∧ k < 324 := by
  -- the exponents are kept as variables, so that no power is evaluated
  obtain ⟨least, hleast⟩ : ∃ least, least = 307 := ⟨_, rfl⟩
  obtain ⟨most, hmost⟩ : ∃ most, most = 324 := ⟨_, rfl⟩
  have hlow : 10 ^ least * 4503599627370496 ≤ unit := by
    rw [hleast, hunit]
    exact pow_bounds_of_least.1
  have hhigh : 2 * unit ≤ 10 ^ most := by
    rw [hmost, hunit]
    exact pow_bounds_of_least.2
  have hfar : least ≤ k := by
    rw [← Nat.not_lt]
    intro hk
    have hpow : 10 ^ (k + 1) ≤ 10 ^ least := Nat.pow_le_pow_right (by decide) hk
    have hbelow : 10 ^ least * m < 10 ^ least * 4503599627370496 :=
      Nat.mul_lt_mul_of_pos_left hlt (Nat.pow_pos (by decide))
    have := Nat.mul_le_mul_right m hpow
    omega
  constructor
  · exact Nat.le_trans hhigh (Nat.pow_le_pow_right (by decide) (by omega))
  · have hpow : 10 ^ k < 10 ^ most := by
      have := Nat.le_mul_of_pos_right (10 ^ k) (Nat.pos_of_ne_zero hm)
      omega
    rw [← hmost]
    exact (Nat.pow_lt_pow_iff_right (by decide)).mp hpow

/-- A fraction that is near to a number of less than 53 bits in the unit of the least exponent is
rounded to it. -/
theorem nearest_of_least {low den m unit : Nat} (hunit : unit = Nat.pow 2 (-(-1074 : Int)).toNat)
    (hm : m ≠ 0) (hlt : m < 4503599627370496) (hlow : low ≠ 0) (hden : den ≠ 0)
    (hhalf : 2 * unit ≤ den) (hle : low * unit ≤ m * den) (hgt : m * den < low * unit + unit) :
    binary64.nearest low den = some (m, -1074) := by
  have hscaled : scaleRatio low den (-1074) = (low * unit, den) := by
    rw [scaleRatio_of_nonpos low den (by decide), hunit]
  have hexp : roundingExponent low den = -1074 := by
    have habove : ¬ (-1074 : Int) + (53 : Nat) ≤ floorLog2 low den := by
      rw [le_floorLog2_iff hlow hden, scaleRatio_add_le_iff, hscaled, Nat.not_le]
      have hbound : m * den < Nat.pow 2 53 * den :=
        Nat.mul_lt_mul_of_pos_right (Nat.lt_trans hlt (by decide)) (Nat.pos_of_ne_zero hden)
      exact Nat.lt_of_le_of_lt hle hbound
    rw [roundingExponent]
    omega
  have hrounded : roundedSignificand low den = m := by
    simp only [roundedSignificand, hexp, hscaled]
    apply Nat.le_antisymm (roundHalfEven_le hle)
    obtain ⟨n, rfl⟩ : ∃ n, m = n + 1 := ⟨m - 1, by omega⟩
    apply lt_roundHalfEven (Nat.pos_of_ne_zero hden)
    rw [Nat.add_mul, Nat.mul_assoc]
    rw [Nat.add_mul] at hgt
    omega
  rw [nearest_eq hlow (by omega) (by omega), hrounded, hexp]

/-- With the least exponent, a significand of less than 53 bits has a candidate of 17 digits. -/
theorem isSome_candidate? {m : Nat} (hm : m ≠ 0) (hlt : m < 4503599627370496) :
    (candidate? m (-1074) (pointPlace (ratio m (-1074)).1 (ratio m (-1074)).2) 17).isSome := by
  obtain ⟨unit, hunit⟩ : ∃ unit, unit = Nat.pow 2 (-(-1074 : Int)).toNat := ⟨_, rfl⟩
  have hratio : ratio m (-1074) = (m, unit) := by
    rw [ratio, if_neg (by decide), hunit]
  have hbelow : m < unit := by
    obtain ⟨bits, hbits⟩ : ∃ bits, (-(-1074 : Int)).toNat = bits := ⟨_, rfl⟩
    have hpow : Nat.pow 2 52 ≤ unit := by
      rw [hunit, hbits]
      exact Nat.pow_le_pow_right Nat.two_pos (by omega)
    exact Nat.lt_of_lt_of_le hlt hpow
  obtain ⟨k, hpoint, hnear, hless⟩ := exists_pointPlace_of_lt hm hbelow
  obtain ⟨hhalf, hk⟩ := bounds_of_least hunit hm hlt hnear hless
  have hstep : pointPlace m unit - (17 : Nat) = -((k + 17 : Nat) : Int) := by omega
  have hscaled : scaleRatioTen m unit (-((k + 17 : Nat) : Int)) = (m * 10 ^ (k + 17), unit) := by
    rw [scaleRatioTen, if_neg (by omega), Int.neg_neg, Int.toNat_natCast]
    rfl
  obtain ⟨low, hlow⟩ : ∃ low, m * 10 ^ (k + 17) / unit = low := ⟨_, rfl⟩
  have hpos : 0 < unit := by omega
  have hparts := Nat.div_add_mod (m * 10 ^ (k + 17)) unit
  have hrest := Nat.mod_lt (m * 10 ^ (k + 17)) hpos
  rw [hlow, Nat.mul_comm unit] at hparts
  -- the seventeen digits
  have hmany : 10 ^ 16 ≤ low := by
    have hexp : k + 17 = 16 + (k + 1) := by omega
    rw [← hlow, Nat.le_div_iff_mul_le hpos, hexp, Nat.pow_add, Nat.mul_left_comm, Nat.mul_comm m]
    exact Nat.mul_le_mul_left _ hnear
  have hfew : low < 10 ^ 17 := by
    rw [← hlow, Nat.div_lt_iff_lt_mul hpos, Nat.add_comm, Nat.pow_add, Nat.mul_left_comm,
      Nat.mul_comm m]
    exact Nat.mul_lt_mul_of_pos_left hless (Nat.pow_pos (by decide))
  have hcount : digitCount low = 17 := by
    have hlength := lt_pow_digitCount low
    have hleast : ¬ digitCount low ≤ 16 := by
      intro hle
      have := Nat.pow_le_pow_right (by decide : 0 < 10) hle
      omega
    have hmost : ¬ 17 < digitCount low := by
      intro hgt
      have := pow_le_of_lt_digitCount (by omega) hgt
      omega
    omega
  have hnearest : binary64.nearest low (10 ^ (k + 17)) = some (m, -1074) := by
    apply nearest_of_least hunit hm hlt (by omega) (Nat.ne_of_gt (Nat.pow_pos (by decide))) hhalf
    · omega
    · omega
  have hreads : ofDecimal false low (-((k + 17 : Nat) : Int)) = .finite false m (-1074) := by
    rw [ofDecimal, hcount]
    rw [if_neg (by omega), if_neg (by omega), if_neg (by omega), if_neg (by omega), Int.neg_neg,
      Int.toNat_natCast, ofRatio, Nat.pow_eq, hnearest]
  simp only [candidate?, hratio, hstep, hscaled, hlow, Option.isSome_map, List.find?_isSome]
  refine ⟨low, ?_, by rw [hreads]; exact beq_self_eq_true _⟩
  split <;> simp

/-! ## Digits that end before the point -/

/-- Whether a number is an integer of no more than 53 bits, whose text has all of its digits. -/
def IsSmallWhole (m : Nat) (e : Int) : Prop :=
  (ratio m e).1 % (ratio m e).2 = 0 ∧ integerPart m e < 9007199254740992

theorem significand_ne_zero {m : Nat} {e : Int} (h : ¬ IsSmallWhole m e) : m ≠ 0 := by
  rintro rfl
  apply h
  simp [IsSmallWhole, integerPart]

/-- An integer that is rounded to a number which is no integer of 53 bits has more bits itself. -/
theorem le_of_nearest_one {n m : Nat} {e : Int} (hlarge : ¬ IsSmallWhole m e)
    (h : binary64.nearest n 1 = some (m, e)) : 9007199254740992 ≤ n := by
  rw [← Nat.not_lt]
  intro hlt
  obtain ⟨m', e', hofInt, hmod, hdiv, _⟩ := @exists_ofInt (n : Int) (by simpa using hlt)
  have hnonneg : decide ((n : Int) < 0) = false := by simp
  rw [ofInt, hnonneg, Int.natAbs_natCast, ofRatio, h] at hofInt
  obtain ⟨_, rfl, rfl⟩ := Double.finite.inj hofInt
  exact hlarge ⟨hmod, by rwa [integerPart, hdiv, Int.natAbs_natCast]⟩

/-- A candidate without digits behind the point stands for an integer of more than 53 bits. -/
theorem le_of_candidate? {m count : Nat} {e : Int} {d : DecimalDigits}
    (hlarge : ¬ IsSmallWhole m e)
    (h : candidate? m e (pointPlace (ratio m e).1 (ratio m e).2) count = some d)
    (hwhole : (d.count : Int) ≤ d.point) :
    9007199254740992 ≤ 10 ^ (d.point - d.count).toNat * d.digits := by
  obtain ⟨units, hreads, rfl⟩ := exists_units_of_candidate? h
  have hnearest := nearest_of_ofDecimal (significand_ne_zero hlarge) hreads
  generalize hpoint : pointPlace (ratio m e).1 (ratio m e).2 = point at *
  by_cases hcarry : units = Nat.pow 10 count
  -- a carry: the number would have a digit more than its place says
  · rw [digitsOfUnits, if_pos hcarry] at hwhole ⊢
    simp only at hwhole ⊢
    have hexp : (point + 1 - (1 : Nat)).toNat = point.toNat := by omega
    rw [hexp, Nat.mul_one, ← Nat.not_lt]
    intro hlt
    have hbelow := div_lt_pow_pointPlace (ratio m e).1 (ratio m e).2
    rw [hpoint, ← integerPart] at hbelow
    have habove : 10 ^ point.toNat ≤ integerPart m e := by
      rcases hnearest with ⟨hstep, hnearest⟩ | ⟨hstep, hnearest⟩
      · have hsum : point.toNat = count + (point - count).toNat := by omega
        have hpow : 10 ^ point.toNat * 1 = units * Nat.pow 10 (point - count).toNat := by
          rw [hcarry, Nat.mul_one, Nat.pow_eq, Nat.pow_eq, hsum, Nat.pow_add]
        exact le_integerPart_nearest hlt Nat.one_ne_zero (Nat.le_of_eq hpow) hnearest
      · have hsum : count = point.toNat + (-(point - count)).toNat := by omega
        have hpow : 10 ^ point.toNat * Nat.pow 10 (-(point - count)).toNat = units := by
          rw [hcarry, Nat.pow_eq, Nat.pow_eq, ← Nat.pow_add, ← hsum]
        exact le_integerPart_nearest hlt (Nat.ne_of_gt (Nat.pow_pos (by decide)))
          (Nat.le_of_eq hpow) hnearest
    omega
  · rw [digitsOfUnits, if_neg hcarry] at hwhole ⊢
    simp only at hwhole ⊢
    rcases hnearest with ⟨_, hnearest⟩ | ⟨hstep, _⟩
    · rw [Nat.mul_comm]
      exact le_of_nearest_one hlarge hnearest
    · omega

/-- The digits of a number that is no integer of 53 bits, if there are none behind the point,
stand for an integer of no fewer bits. -/
theorem le_of_count_le_point {m : Nat} {e : Int} (h : IsNormal m e) (hlarge : ¬ IsSmallWhole m e)
    (hwhole : ((shortest m e).count : Int) ≤ (shortest m e).point) :
    4503599627370496 ≤
      10 ^ ((shortest m e).point - (shortest m e).count).toNat * (shortest m e).digits := by
  have hm := significand_ne_zero hlarge
  generalize hd : shortest m e = d at *
  simp only [shortest] at hd
  cases hfound : (List.range 17).findSome? fun i =>
      candidate? m e (pointPlace (ratio m e).1 (ratio m e).2) (i + 1) with
  | some candidate =>
    rw [hfound, Option.getD_some] at hd
    subst hd
    obtain ⟨i, _, hcandidate⟩ := List.exists_of_findSome?_eq_some hfound
    have := le_of_candidate? hlarge hcandidate hwhole
    omega
  | none =>
    rw [hfound, Option.getD_none] at hd
    subst hd
    have hfull : 4503599627370496 ≤ m := by
      rw [← Nat.not_lt]
      intro hlt
      obtain rfl : e = -1074 := h.full.resolve_left (by omega)
      have hnone := List.findSome?_eq_none_iff.mp hfound 16 (by simp)
      have hsome := isSome_candidate? hm hlt
      rw [hnone] at hsome
      exact absurd hsome (by simp)
    simpa using hfull

/-! ## Texts -/

/-- The text of an integer of no more than 53 bits is that of the integer. -/
theorem text_of_whole {x : Double} {n : Int} (h : x.whole? = some n)
    (hlt : n.natAbs < 9007199254740992) : x.text = toString n := by
  cases x with
  | nan | infinity => exact absurd h (by simp [whole?])
  | finite negative m e =>
    obtain ⟨hratio, rfl⟩ := whole?_eq_some.mp h
    rw [natAbs_signed] at hlt
    have hmod : (ratio m e).1 % (ratio m e).2 = 0 := by
      rw [hratio]
      exact Nat.mul_mod_left _ _
    have hmagnitude : magnitudeText m e = Nat.repr (integerPart m e) := by
      rw [magnitudeText]
      exact if_pos ⟨hmod, hlt⟩
    have hzero : m = 0 ↔ integerPart m e = 0 := by
      constructor
      · rintro rfl
        simp [integerPart]
      · intro hpart
        rw [hpart, Nat.zero_mul, ratio] at hratio
        split at hratio
        · exact (Nat.mul_eq_zero.mp hratio).resolve_right (Nat.ne_of_gt (Nat.two_pow_pos _))
        · exact hratio
    apply String.toList_inj.mp
    rw [Text.toList_toString, natAbs_signed, text, hmagnitude]
    by_cases hpart : integerPart m e = 0
    · rw [if_neg (by simp [hzero.mpr hpart])]
      cases negative <;> simp [signed, hpart, Text.signChars]
    · have hm : m ≠ 0 := fun hm => hpart (hzero.mp hm)
      cases negative with
      | false => simp [signed, Text.signChars]
      | true =>
        have hneg : signed true (integerPart m e) < 0 := by
          simp only [signed, if_true]
          omega
        simp [hm, hneg, Text.signChars]

/-- Digits are written without a mark only if none of them is behind the point. -/
theorem layout_cases (d : DecimalDigits) :
    ((d.count : Int) ≤ d.point ∧
      DecimalDigits.layout d =
        (Nat.repr d.digits).toList ++ List.replicate (d.point - d.count).toNat '0') ∨
    ∃ c ∈ DecimalDigits.layout d, c = '.' ∨ c = 'e' := by
  simp only [DecimalDigits.layout]
  split
  · rename_i h
    exact Or.inl ⟨h.1, rfl⟩
  split
  · exact Or.inr ⟨'.', by simp, Or.inl rfl⟩
  split
  · exact Or.inr ⟨'.', by simp, Or.inl rfl⟩
  · split
    · exact Or.inr ⟨'e', by simp, Or.inr rfl⟩
    · exact Or.inr ⟨'.', by simp, Or.inl rfl⟩
    · exact Or.inr ⟨'e', by simp, Or.inr rfl⟩

theorem toList_text_of_large {m : Nat} {e : Int} (hlarge : ¬ IsSmallWhole m e) (negative : Bool) :
    (Double.finite negative m e).text.toList =
      Text.signChars negative ++ DecimalDigits.layout (shortest m e) := by
  have hmagnitude : magnitudeText m e = String.ofList (DecimalDigits.layout (shortest m e)) := by
    rw [magnitudeText]
    exact if_neg hlarge
  have hm := significand_ne_zero hlarge
  cases negative <;> simp [text, hm, hmagnitude, Text.signChars]

end Double

namespace PrimitiveKind

open Text

/-! ## Literals -/

/-- Text with a character in it that is neither a digit nor a sign is no integer literal. -/
theorem integerLiteral?_eq_none {cs : List Char} {c : Char} (hc : c ∈ cs)
    (hdigit : c.isDigit = false) (hminus : c ≠ '-') (hplus : c ≠ '+') :
    integerLiteral? cs = none := by
  have hrest : c ∈ (splitSign cs).2 := by
    rw [splitSign.eq_def]
    split
    · exact (List.mem_cons.mp hc).resolve_left hminus
    · exact (List.mem_cons.mp hc).resolve_left hplus
    · exact hc
  have hall : (splitSign cs).2.all Char.isDigit = false := by
    rw [List.all_eq_false]
    exact ⟨c, hrest, by simp [hdigit]⟩
  simp [integerLiteral?, hall]

/-- Nothing narrow is read from the text of a number that is no integer of 53 bits. -/
theorem parseBounded_of_large {negative : Bool} {m bits : Nat} {e : Int} {kind : PrimitiveKind}
    (hb : bits ≤ 32) (h : Double.IsNormal m e) (hlarge : ¬ Double.IsSmallWhole m e) :
    parseBounded kind bits (Double.finite negative m e).text =
      .error (kind.invalid (Double.finite negative m e).text) := by
  have htext := Double.toList_text_of_large hlarge negative
  rcases Double.layout_cases (Double.shortest m e) with ⟨hwhole, hlayout⟩ | ⟨c, hc, hmark⟩
  · have hvalue : digitsValue (Double.DecimalDigits.layout (Double.shortest m e)) =
        10 ^ ((Double.shortest m e).point - (Double.shortest m e).count).toNat *
          (Double.shortest m e).digits := by
      rw [hlayout, digitsValue_append_zeros, digitsValue_repr]
    have hdigits : ∀ c ∈ (Double.DecimalDigits.layout (Double.shortest m e)), c.isDigit = true := by
      intro c hc
      rw [hlayout] at hc
      rcases List.mem_append.mp hc with hc | hc
      · exact isDigit_of_mem_repr hc
      · rw [List.eq_of_mem_replicate hc]
        rfl
    have hne : (Double.DecimalDigits.layout (Double.shortest m e)) ≠ [] := by
      rw [hlayout]
      exact List.append_ne_nil_of_left_ne_nil (repr_ne_nil _) _
    have hlarge := Double.le_of_count_le_point h hlarge hwhole
    rw [← hvalue] at hlarge
    have hfits := @not_fits_of_le bits
      (Double.signed negative (digitsValue (Double.DecimalDigits.layout (Double.shortest m e)))) hb
      (by rwa [Double.natAbs_signed])
    have hread := parseBounded_literal (isSign_signChars negative) ⟨hne, hdigits⟩ kind hb
    rw [← htext, String.ofList_toList, if_neg (by simp [hfits])] at hread
    exact hread
  · have hnone : integerLiteral? (Double.finite negative m e).text.toList = none := by
      rw [htext]
      apply integerLiteral?_eq_none (List.mem_append_right _ hc)
      · rcases hmark with rfl | rfl <;> rfl
      · rcases hmark with rfl | rfl <;> decide
      · rcases hmark with rfl | rfl <;> decide
    exact parseBounded_of_none hnone kind bits

/-- A number is read from its text at a narrow width just if it is an integer of this width, and
then as the integer. -/
theorem parseBounded_text {x : Double} (hx : x.InNormalForm) {kind : PrimitiveKind} {bits : Nat}
    (hb : bits ≤ 32) {v : Value} :
    parseBounded kind bits x.text = .ok v ↔
      ∃ n, x.whole? = some n ∧ fits bits n = true ∧ v = .number (Double.ofInt n) := by
  by_cases hsmall : ∃ n, x.whole? = some n ∧ n.natAbs < 9007199254740992
  · obtain ⟨n, hwhole, hlt⟩ := hsmall
    rw [Double.text_of_whole hwhole hlt, parseBounded_toString hb, hwhole]
    constructor
    · intro h
      split at h
      · rename_i hfits
        exact ⟨n, rfl, hfits, (Except.ok.inj h).symm⟩
      · exact absurd h (by simp)
    · rintro ⟨n', hsame, hfits, rfl⟩
      obtain rfl := Option.some.inj hsame
      rw [if_pos hfits]
  · have hrefused : ∃ failure, parseBounded kind bits x.text = .error failure := by
      cases x with
      | nan => exact ⟨_, rfl⟩
      | infinity negative => cases negative <;> exact ⟨_, rfl⟩
      | finite negative m e =>
        refine ⟨_, parseBounded_of_large hb hx ?_⟩
        rintro ⟨hmod, hlt⟩
        refine hsmall ⟨_, Double.whole?_eq_some.mpr ⟨?_, rfl⟩, by rwa [Double.natAbs_signed]⟩
        exact (Nat.div_mul_cancel (Nat.dvd_of_mod_eq_zero hmod)).symm
    obtain ⟨failure, hrefused⟩ := hrefused
    constructor
    · intro h
      exact absurd (hrefused.symm.trans h) (by simp)
    · rintro ⟨n, hwhole, hfits, _⟩
      refine absurd ⟨n, hwhole, ?_⟩ hsmall
      rw [← Nat.not_le]
      intro hle
      rw [not_fits_of_le hb (by omega)] at hfits
      exact absurd hfits Bool.false_ne_true

end PrimitiveKind

end WarehouseRows
