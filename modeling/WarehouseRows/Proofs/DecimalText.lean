import WarehouseRows.Proofs.DecimalLiterals
import WarehouseRows.Proofs.Outcome

/-!
# Decimal text read back

A decimal whose scale is not negative is written with exactly as many digits behind the
point as its scale says, so the digits give back the unscaled integer and their count the
scale. The only bound is the greatest length of a text.
-/

namespace WarehouseRows.Decimal

open Text Double

/-! ## Plain notation -/

/-- Plain notation has the digits of the integer, at least one before the point and as many behind
it as there are places. -/
theorem exists_plainText (unscaled : Int) (places : Nat) :
    ∃ whole fraction, IsRun whole ∧ (∀ c ∈ fraction, c.isDigit = true) ∧
      fraction.length = places ∧ digitsValue (whole ++ fraction) = unscaled.natAbs ∧
      (plainText unscaled places).toList =
        signChars (decide (unscaled < 0)) ++ (whole ++ fractionChars fraction) := by
  by_cases hzero : places = 0
  · refine ⟨(Nat.repr unscaled.natAbs).toList, [], isRun_repr _, by simp, hzero.symm,
      by rw [List.append_nil, digitsValue_repr], ?_⟩
    rw [plainText, if_pos hzero, toList_toString, fractionChars_nil, List.append_nil]
  · have hlen : places + 1 ≤ (padNat (places + 1) unscaled.natAbs).length := le_length_padNat _ _
    have hvalue := digitsValue_padNat (places + 1) unscaled.natAbs
    have hdigit : ∀ c ∈ padNat (places + 1) unscaled.natAbs, c.isDigit = true :=
      fun _ => isDigit_of_mem_padNat
    generalize hd : padNat (places + 1) unscaled.natAbs = digits at hlen hvalue hdigit
    have hfraction : (digits.drop (digits.length - places)).length = places := by
      rw [List.length_drop]
      omega
    have hwhole : digits.take (digits.length - places) ≠ [] := by
      apply List.ne_nil_of_length_pos
      rw [List.length_take]
      omega
    refine ⟨digits.take (digits.length - places), digits.drop (digits.length - places),
      ⟨hwhole, fun c hc => hdigit c (List.mem_of_mem_take hc)⟩,
      fun c hc => hdigit c (List.mem_of_mem_drop hc), hfraction, ?_, ?_⟩
    · rw [List.take_append_drop, hvalue]
    · rw [fractionChars_of_ne_nil (List.ne_nil_of_length_pos (by omega))]
      simp only [plainText, hzero, if_false, hd, String.toList_ofList, signChars,
        decide_eq_true_eq, List.append_assoc]

/-- Besides digits and a sign there is only the point, in front of places. -/
theorem mem_plainText {unscaled : Int} {places : Nat} {c : Char} (hdigit : c.isDigit = false)
    (hsign : c ≠ '-') : c ∈ (plainText unscaled places).toList ↔ c = '.' ∧ 0 < places := by
  obtain ⟨whole, fraction, hw, hf, hlen, -, htext⟩ := exists_plainText unscaled places
  have hsigned : c ∉ signChars (decide (unscaled < 0)) := by
    simp [signChars, hsign]
  have hwhole : c ∉ whole := fun hc => by simp [hw.digits c hc] at hdigit
  have hfraction : c ∉ fraction := fun hc => by simp [hf c hc] at hdigit
  rw [htext, List.mem_append, List.mem_append, or_iff_right hsigned, or_iff_right hwhole]
  by_cases hne : fraction = []
  · subst hne
    obtain rfl : 0 = places := hlen
    simp
  · have hpos : 0 < places := hlen ▸ List.length_pos_iff.mpr hne
    rw [fractionChars_of_ne_nil hne, List.mem_cons, or_iff_left hfraction, and_iff_left hpos]

theorem isMantissa_append_fractionChars {whole fraction : List Char} (hw : IsRun whole)
    (hf : ∀ c ∈ fraction, c.isDigit = true) :
    IsMantissa (whole ++ fractionChars fraction) whole fraction := by
  by_cases hne : fraction = []
  · subst hne
    rw [fractionChars_nil, List.append_nil]
    exact .whole hw
  · rw [fractionChars_of_ne_nil hne]
    exact .pointed hw hf

/-- Plain notation is a literal of the integer, without an exponent. -/
theorem exists_isLiteral_plainText (unscaled : Int) (places : Nat) :
    ∃ l, IsLiteral (plainText unscaled places).toList l ∧ l.exponent = 0 ∧
      l.fraction.length = places ∧
      Double.signed l.negative (digitsValue (l.whole ++ l.fraction)) = unscaled := by
  obtain ⟨whole, fraction, hw, hf, hlen, hvalue, htext⟩ := exists_plainText unscaled places
  refine ⟨⟨decide (unscaled < 0), whole, fraction, 0⟩, ?_, rfl, hlen, ?_⟩
  · have hl := IsLiteral.mk (isSign_signChars (decide (unscaled < 0)))
      (isMantissa_append_fractionChars hw hf) .none
    rwa [List.append_nil, ← htext] at hl
  · rw [hvalue, Double.signed_natAbs]

/-- Text in plain notation is read as the decimal it was written for. -/
theorem parse_plainText (unscaled : Int) {places : Nat} (h : places < 2 ^ 53) :
    parse (plainText unscaled places) = .ok ⟨unscaled, .places (.ofInt places)⟩ := by
  obtain ⟨l, hl, hexponent, hlen, hvalue⟩ := exists_isLiteral_plainText unscaled places
  have hexact : l.HasExactScale := by
    simpa [Literal.HasExactScale, hexponent, hlen] using h
  rw [parse_of_hasExactScale hl.spells hexact, hvalue, hexponent, hlen, Int.sub_zero]
  rfl

/-! ## Decimals that have a text -/

/-- A decimal without the minus sign of a zero scale. -/
def plain (d : Decimal) : Decimal :=
  match d.scale with
  | .places n => ⟨d.unscaled, .places n.plain⟩
  | .unbounded _ => d

/-- Whether the scale of a decimal is not negative and its text not too long. -/
def IsPrintable (d : Decimal) : Prop :=
  ∃ n, d.scale = .places n ∧ 0 ≤ n.toInt ∧
    textLength d.unscaled n.toInt.toNat ≤ Text.longest

/-- The text of a decimal is read as the decimal. -/
theorem exists_text {d : Decimal} (h : d.IsPrintable) :
    ∃ text, d.text = .ok text ∧ parse text = .ok d.plain := by
  obtain ⟨unscaled, scale⟩ := d
  obtain ⟨n, rfl, h0, hlen⟩ := h
  have hplaces : ((n.toInt.toNat : Nat) : Int) = n.toInt := by omega
  have hlt : n.toInt.toNat < 2 ^ 53 := by
    simp only [textLength, Text.longest] at hlen
    omega
  have hexponent : (-n.toInt).toNat = 0 := by omega
  refine ⟨plainText unscaled n.toInt.toNat, ?_, ?_⟩
  · simp only [text, hexponent]
    rw [if_neg (Nat.not_lt.mpr hlen)]
    rfl
  · rw [parse_plainText unscaled hlt, hplaces]
    rfl

/-- Whatever its scale, a decimal that has a text is read from it. -/
theorem exists_parse_of_text {d : Decimal} {s : String} (h : d.text = .ok s) :
    ∃ back, parse s = .ok back := by
  obtain ⟨unscaled, scale⟩ := d
  cases scale with
  | unbounded negative =>
    cases negative <;> exact absurd h (by simp [text])
  | places n =>
    simp only [text] at h
    split at h
    · exact absurd h (by simp)
    · rename_i hlength
      have hlt : n.toInt.toNat < 2 ^ 53 := by
        simp only [textLength, Text.longest] at hlength
        omega
      obtain ⟨shifted, -, rfl⟩ := Outcome.map_eq_ok.mp h
      exact ⟨_, parse_plainText shifted hlt⟩

end WarehouseRows.Decimal
