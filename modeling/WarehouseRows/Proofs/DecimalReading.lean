import Mathlib.Tactic.FieldSimp
import WarehouseRows.Proofs.DecimalText
import WarehouseRows.Proofs.DecimalValue

/-!
# The numbers of decimal texts

A literal denotes a number digit by digit: those before the point count as an integer, each one
behind it a tenth of the one before, and the exponent moves the point. The reader knows nothing of
this. It puts all digits together into one integer and counts places. Both give the same number. In
the other direction the text of a decimal is a literal of its number, with as many digits behind the
point as the decimal has places.

## Main definitions

* `Decimal.fractionValue`, `Decimal.Literal.value`: the number that a literal denotes.

## Main results

* `Decimal.Literal.value_eq_rational`: it is the number of the decimal that is read.
* `Decimal.exists_value_plainText`: the text of a decimal is a literal of its number.
* `Decimal.compare_zeros`: zeros in place of a negative scale do not count.
-/

namespace WarehouseRows.Decimal

open Text Double

/-! ## Numbers of literals -/

/-- The number that digits behind the point denote. -/
def fractionValue : List Char → ℚ
  | [] => 0
  | c :: cs => (digitValue c + fractionValue cs) / 10

/-- The number that a literal denotes. -/
def Literal.value (l : Literal) : ℚ :=
  (if l.negative then -1 else 1) * (digitsValue l.whole + fractionValue l.fraction) *
    10 ^ l.exponent

/-- Digits behind the point are an integer in units of the last place. -/
theorem fractionValue_mul_pow (cs : List Char) :
    fractionValue cs * 10 ^ cs.length = digitsValue cs := by
  induction cs with
  | nil => simp [fractionValue, digitsValue]
  | cons c cs ih =>
    have hfirst : digitsValue [c] = digitValue c := by simp [digitsValue]
    have hdigits : digitsValue (c :: cs) = 10 ^ cs.length * digitValue c + digitsValue cs := by
      rw [← hfirst]
      exact digitsValue_append [c] cs
    rw [hdigits, fractionValue, List.length_cons, pow_succ]
    push_cast
    rw [← ih]
    ring

/-- Digits put together, and the places of those behind the point less the exponent, are the number
that the literal denotes. -/
theorem Literal.value_eq_rational (l : Literal) :
    l.value = rational (signed l.negative (digitsValue (l.whole ++ l.fraction)))
      (l.fraction.length - l.exponent) := by
  have hsigned : ((signed l.negative (digitsValue (l.whole ++ l.fraction)) : Int) : ℚ) =
      (if l.negative then -1 else 1) * (digitsValue (l.whole ++ l.fraction) : ℚ) := by
    cases l.negative <;> simp [signed]
  rw [rational, hsigned, digitsValue_append, neg_sub, zpow_sub₀ (by norm_num), zpow_natCast,
    Literal.value]
  push_cast
  rw [← fractionValue_mul_pow l.fraction]
  field_simp

/-! ## Reading -/

/-- Exactly the literals are read, with blanks around them or without. As long as the parts of its
scale are exact in binary64, a literal is read with the places that it has behind the point less its
exponent, and as the number that it denotes. Every other text is refused as an invalid value. -/
theorem parse_literal (text : String) :
    ((∃ d, parse text = .ok d) ↔ ∃ l, Spells text.toList l) ∧
    (∀ l, Spells text.toList l → l.exponent.natAbs + l.fraction.length < 2 ^ 53 →
      ∃ u, parse text = .ok (ofPlaces u (.ofInt (l.fraction.length - l.exponent))) ∧
        rational u (l.fraction.length - l.exponent) = l.value) ∧
    ((¬∃ l, Spells text.toList l) → ∃ e, parse text = .error e ∧ e.code = .invalidValue) := by
  refine ⟨⟨?_, ?_⟩, ?_, exists_parse_error⟩
  · rintro ⟨d, hd⟩
    by_contra hnone
    obtain ⟨e, he, -⟩ := exists_parse_error hnone
    exact absurd (hd.symm.trans he) (by simp)
  · rintro ⟨l, hl⟩
    exact ⟨_, parse_of_spells hl⟩
  · intro l hl hexact
    exact ⟨_, parse_of_hasExactScale hl hexact, l.value_eq_rational.symm⟩

/-- A fraction without an integer in front, with an exponent and between blanks; and a point without
digits. -/
theorem parse_literal_fraction :
    (∃ u, parse "\t-.5e3\n" = .ok (ofPlaces u (.ofInt (-2))) ∧ rational u (-2) = -500) ∧
    ∃ e, parse "." = .error e ∧ e.code = .invalidValue := by
  have hl : Spells "\t-.5e3\n".toList ⟨true, [], ['5'], 3⟩ := readLiteral?_eq_some.mp rfl
  have hnone : readLiteral? ".".toList = none := rfl
  have hpoint : ¬∃ l, Spells ".".toList l := by
    rintro ⟨l, hl⟩
    exact absurd ((readLiteral?_eq_some.mpr hl).symm.trans hnone) (by simp)
  obtain ⟨u, hu, hvalue⟩ := (parse_literal "\t-.5e3\n").2.1 _ hl (by decide)
  have hfive : digitValue '5' = 5 := rfl
  refine ⟨⟨u, hu, hvalue.trans ?_⟩, (parse_literal ".").2.2 hpoint⟩
  norm_num [Literal.value, fractionValue, digitsValue, hfive]

/-! ## Writing -/

/-- Plain notation with zeros for the places that are missing is the number. -/
theorem rational_zeros (u n : Int) :
    rational (u * 10 ^ (-n).toNat) n.toNat = rational u n := by
  rcases Int.le_total 0 n with hle | hge
  · have hzeros : (-n).toNat = 0 := by omega
    rw [hzeros, pow_zero, mul_one, Int.toNat_of_nonneg hle]
  · have hplaces : (n.toNat : Int) = 0 := by omega
    have hk := rational_mul_pow u hge
    rw [zero_sub] at hk
    rw [hplaces]
    exact rational_eq_of_mul_pow hk

/-- Plain notation is a literal of the number, without an exponent. -/
theorem exists_value_plainText (u : Int) (places : Nat) :
    ∃ l, IsLiteral (plainText u places).toList l ∧ l.value = rational u places ∧
      l.fraction.length = places := by
  obtain ⟨l, hl, hexponent, hlen, hvalue⟩ := exists_isLiteral_plainText u places
  refine ⟨l, hl, ?_, hlen⟩
  rw [l.value_eq_rational, hvalue, hlen, hexponent, sub_zero]

/-- With zeros in place of a negative scale a decimal is as large as before. -/
theorem compare_zeros {u : Int} {n : Whole} (h : HasRoom u n.toInt.natAbs) :
    (ofPlaces u n).compare (ofPlaces (u * 10 ^ (-n.toInt).toNat) (.ofInt n.toInt.toNat)) =
      .ok 0 := by
  rw [compare_of_hasRoom, Whole.toInt_ofInt, rational_zeros, sub_self, sign_zero]
  · rfl
  · intro _
    rw [Whole.toInt_ofInt]
    exact h.mono le_rfl (by omega)
  · intro hgt
    rw [Whole.toInt_ofInt] at hgt
    omega

/-- A text in plain notation is a literal of the number of the decimal, without an exponent and with
exactly as many digits behind the point as there are places, if there are any. -/
theorem exists_literal_of_text {u : Int} {n : Whole} {text : String}
    (htext : (ofPlaces u n).text = .ok text) :
    ∃ l, IsLiteral text.toList l ∧ 'e' ∉ text.toList ∧ 'E' ∉ text.toList ∧
      l.value = rational u n.toInt ∧ l.fraction.length = n.toInt.toNat ∧
      ('.' ∈ text.toList ↔ 0 < n.toInt) := by
  obtain ⟨-, rfl⟩ := text_eq_ok htext
  obtain ⟨l, hl, hvalue, hlen⟩ :=
    exists_value_plainText (u * 10 ^ (-n.toInt).toNat) n.toInt.toNat
  refine ⟨l, hl, ?_, ?_, hvalue.trans (rational_zeros u n.toInt), hlen, ?_⟩
  · rw [mem_plainText rfl (by decide)]
    simp
  · rw [mem_plainText rfl (by decide)]
    simp
  · rw [mem_plainText rfl (by decide), and_iff_right rfl]
    omega

/-- A text is read as the decimal, or with zeros in place of a negative scale. -/
theorem parse_of_text {u : Int} {n : Whole} {text : String}
    (htext : (ofPlaces u n).text = .ok text) :
    parse text = .ok (ofPlaces (u * 10 ^ (-n.toInt).toNat) (.ofInt n.toInt.toNat)) := by
  obtain ⟨hlong, rfl⟩ := text_eq_ok htext
  have hexact : n.toInt.toNat < 2 ^ 53 := by
    simp only [textLength, Text.longest] at hlong
    omega
  exact parse_plainText _ hexact

/-- A decimal has a text, or fails for a size. The text is a literal of the number of the decimal,
without an exponent and with exactly as many digits behind the point as there are places, if there
are any. As long as there is room for the digits and the places, there is a text; it is read as the
decimal, or with zeros in place of a negative scale, and either way it is as large as the
decimal. -/
theorem text_ofParts (u : Int) {scale : Double} {n : Whole}
    (h : Whole.ofDouble? scale = some n) :
    ofParts u scale = .ok (ofPlaces u n) ∧
    (∀ {f}, (ofPlaces u n).text = .error f → f.name = "RangeError") ∧
    (∀ {text}, (ofPlaces u n).text = .ok text →
      ∃ l, IsLiteral text.toList l ∧ 'e' ∉ text.toList ∧ 'E' ∉ text.toList ∧
        l.value = rational u n.toInt ∧ l.fraction.length = n.toInt.toNat ∧
        ('.' ∈ text.toList ↔ 0 < n.toInt)) ∧
    (HasRoom u n.toInt.natAbs →
      ∃ text back, (ofPlaces u n).text = .ok text ∧ parse text = .ok back ∧
        (0 ≤ n.toInt → back = ofPlaces u (.ofInt n.toInt)) ∧
        (n.toInt < 0 → back = ofPlaces (u * 10 ^ (-n.toInt).toNat) (.ofInt 0)) ∧
        (ofPlaces u n).compare back = .ok 0) := by
  have hscale : Scale.ofDouble? scale = some (.places n) := by
    simp only [Scale.ofDouble?, h, Option.map_some]
  refine ⟨by simp only [ofParts, hscale], name_of_text_error, exists_literal_of_text, ?_⟩
  intro hroom
  obtain ⟨text, htext, -⟩ := exists_text_of_hasRoom hroom
  refine ⟨text, _, htext, parse_of_text htext, ?_, ?_, compare_zeros hroom⟩
  · intro hpos
    have hzeros : (-n.toInt).toNat = 0 := by omega
    rw [hzeros, pow_zero, mul_one, Int.toNat_of_nonneg hpos]
  · intro hneg
    have hplaces : n.toInt.toNat = 0 := by omega
    rw [hplaces]
    rfl

/-- Hundreds, and thousandths less than one. -/
theorem text_ofParts_short :
    (Whole.ofDouble? (Double.ofInt (-2)) = some (.ofInt (-2)) ∧
      (ofPlaces 5 (.ofInt (-2))).text = .ok "500" ∧
      parse "500" = .ok (ofPlaces 500 (.ofInt 0))) ∧
    Whole.ofDouble? (Double.ofInt 3) = some (.ofInt 3) ∧
      (ofPlaces (-5) (.ofInt 3)).text = .ok "-0.005" ∧
      parse "-0.005" = .ok (ofPlaces (-5) (.ofInt 3)) := by
  have hhundreds : Whole.ofDouble? (Double.ofInt (-2)) = some (.ofInt (-2)) :=
    Double.ofDouble?_ofInt (by decide)
  have hthousandths : Whole.ofDouble? (Double.ofInt 3) = some (.ofInt 3) :=
    Double.ofDouble?_ofInt (by decide)
  have hlarge : (ofPlaces 5 (.ofInt (-2))).text = .ok "500" := rfl
  have hsmall : (ofPlaces (-5) (.ofInt 3)).text = .ok "-0.005" := rfl
  obtain ⟨-, -, -, hread⟩ := text_ofParts 5 hhundreds
  obtain ⟨text, back, htext, hback, -, hzeros, -⟩ := hread ⟨1, by decide, by decide⟩
  obtain rfl := Except.ok.inj (hlarge.symm.trans htext)
  obtain ⟨-, -, -, hread'⟩ := text_ofParts (-5) hthousandths
  obtain ⟨text', back', htext', hback', hsame, -⟩ := hread' ⟨1, by decide, by decide⟩
  obtain rfl := Except.ok.inj (hsmall.symm.trans htext')
  rw [hzeros (by decide)] at hback
  rw [hsame (by decide)] at hback'
  exact ⟨⟨hhundreds, hlarge, hback⟩, hthousandths, hsmall, hback'⟩

/-- With a thousand million places there is no text. Nor is there one of a zero that would have
twice as many zeros written behind it: the power of ten is too large. -/
theorem text_ofParts_tooLong :
    (ofParts 1 (Double.ofInt 1000000000) = .ok (ofPlaces 1 (.ofInt 1000000000)) ∧
      (ofPlaces 1 (.ofInt 1000000000)).text = .error tooLong) ∧
    ofParts 0 (Double.ofInt (-2000000000)) = .ok (ofPlaces 0 (.ofInt (-2000000000))) ∧
      (ofPlaces 0 (.ofInt (-2000000000))).text = .error tooLarge := by
  have hplaces : Whole.ofDouble? (Double.ofInt 1000000000) = some (.ofInt 1000000000) :=
    Double.ofDouble?_ofInt (by decide)
  have hzeros : Whole.ofDouble? (Double.ofInt (-2000000000)) = some (.ofInt (-2000000000)) :=
    Double.ofDouble?_ofInt (by decide)
  refine ⟨⟨?_, ?_⟩, ?_, ?_⟩
  · simp only [ofParts, Scale.ofDouble?, hplaces, Option.map_some]
  · simp only [text]
    rw [if_pos (by decide)]
  · simp only [ofParts, Scale.ofDouble?, hzeros, Option.map_some]
  · simp only [text]
    rw [if_neg (by decide), timesPower_of_gt 0 (by decide)]
    rfl

end WarehouseRows.Decimal
