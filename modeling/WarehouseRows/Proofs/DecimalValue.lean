import Mathlib.Algebra.Order.Field.Power
import Mathlib.Data.Rat.Cast.Order
import Mathlib.Data.Sign.Basic
import Mathlib.Tactic.NormNum
import Mathlib.Tactic.Positivity
import Mathlib.Tactic.Ring
import WarehouseRows.Proofs.DecimalRoom

/-!
# The values of decimals

A decimal of finitely many places is a rational number. Two of them are compared as integers, once
the one with fewer places has as many as the other; a decimal is rescaled by zeros behind its digits
or by a division, which has to come out even. So both follow the rational numbers. The exception is
the size of integers: with more digits than there is surely room for, there may be no answer.

## Main definitions

* `Decimal.rational`: the number that a decimal is.

## Main results

* `Decimal.compare_eq_ok`, `Decimal.compare_of_hasRoom`: the order of two decimals.
* `Decimal.exists_of_setScale`, `Decimal.exists_setScale_iff`: what rescaling answers.
* `Decimal.setScale_eq_error`: how rescaling fails.
-/

namespace WarehouseRows.Decimal

/-! ## Values -/

/-- The rational number that an integer is with so many of its digits behind the point. -/
def rational (unscaled places : Int) : ℚ :=
  unscaled * 10 ^ (-places)

/-- With at least as many places the number is an integer in units of the last one. -/
theorem rational_mul_pow {m t : Int} (u : Int) (h : m ≤ t) :
    rational u m * 10 ^ t = ((u * 10 ^ (t - m).toNat : Int) : ℚ) := by
  have hexponent : -m + t = ((t - m).toNat : Int) := by omega
  rw [rational, mul_assoc, ← zpow_add₀ (by norm_num), hexponent, zpow_natCast]
  push_cast
  rfl

theorem rational_eq_iff {u k m t : Int} (h : t ≤ m) :
    rational u m * 10 ^ t = k ↔ k * 10 ^ (m - t).toNat = u := by
  have hexponent : -m + t = -((m - t).toNat : Int) := by omega
  rw [rational, mul_assoc, ← zpow_add₀ (by norm_num), hexponent, zpow_neg, zpow_natCast,
    mul_inv_eq_iff_eq_mul₀ (by positivity), eq_comm]
  norm_cast

/-- With at most as many places the number is an integer if zeros can be taken away for the
others. -/
theorem exists_integer_iff {u m t : Int} (h : t ≤ m) :
    (∃ k : Int, rational u m * 10 ^ t = k) ↔ (10 : Int) ^ (m - t).toNat ∣ u := by
  rw [dvd_iff_exists_eq_mul_left]
  exact exists_congr fun k => (rational_eq_iff h).trans eq_comm

/-- The number at another scale is the number. -/
theorem rational_eq_of_mul_pow {u k m t : Int} (h : rational u m * 10 ^ t = k) :
    rational k t = rational u m := by
  rw [rational, ← h, mul_assoc, ← zpow_add₀ (by norm_num), add_neg_cancel, zpow_zero, mul_one]

/-- Two numbers are as far apart as two integers, in units of one place. -/
theorem sign_sub_of_mul_pow {x y : ℚ} {t a b : Int} (hx : x * 10 ^ t = a) (hy : y * 10 ^ t = b) :
    (SignType.sign (x - y) : Int) = (a - b).sign := by
  have hpow : (0 : ℚ) < 10 ^ t := by positivity
  have hunits : (x - y) * 10 ^ t = ((a - b : Int) : ℚ) := by
    rw [sub_mul, hx, hy]
    push_cast
    rfl
  have hsign := congrArg SignType.sign hunits
  rw [sign_mul, sign_pos hpow, mul_one, sign_intCast] at hsign
  rw [hsign, Int.sign_eq_sign]

/-! ## Rescaling, case by case -/

theorem setScale_of_eq {m t : Whole} (u : Int) (h : m.toInt = t.toInt) :
    (ofPlaces u m).setScale (.places t) = .ok (ofPlaces u m) := by
  simp only [setScale, Scale.same, h, beq_self_eq_true, if_true]

/-- More places put zeros behind the digits. -/
theorem setScale_of_lt {m t : Whole} (u : Int) (h : m.toInt < t.toInt) :
    (ofPlaces u m).setScale (.places t) =
      (raised u (.ofInt (t.toInt - m.toInt).toNat)).map (ofPlaces · t) := by
  have hne : m.toInt ≠ t.toInt := by omega
  have hgap : ((t.toInt - m.toInt).toNat : Int) = t.toInt - m.toInt := by omega
  simp only [setScale, Scale.same, Scale.below, Scale.minus, beq_iff_eq, hne, if_false, h,
    decide_true, if_true, hgap]

/-- Fewer places take zeros from the end of the digits. -/
theorem setScale_of_gt {m t : Whole} (u : Int) (h : t.toInt < m.toInt) :
    (ofPlaces u m).setScale (.places t) =
      ((ofPlaces u m).lowered (.ofInt (m.toInt - t.toInt).toNat) t.toDouble.text).map
        (ofPlaces · t) := by
  have hne : m.toInt ≠ t.toInt := by omega
  have hge : ¬m.toInt < t.toInt := by omega
  have hgap : ((m.toInt - t.toInt).toNat : Int) = m.toInt - t.toInt := by omega
  simp only [setScale, Scale.same, Scale.below, Scale.minus, beq_iff_eq, hne, if_false, hge,
    decide_false, Bool.false_eq_true, hgap]
  rfl

/-! ## Comparing -/

/-- With at least as many places a decimal has zeros behind its digits. -/
theorem map_unscaled_setScale {m t : Whole} (u : Int) (h : m.toInt ≤ t.toInt) :
    ((ofPlaces u m).setScale (.places t)).map unscaled =
      raised u (.ofInt (t.toInt - m.toInt).toNat) := by
  rcases Int.lt_or_eq_of_le h with hlt | hsame
  · rw [setScale_of_lt u hlt]
    cases raised u (.ofInt (t.toInt - m.toInt).toNat) <;> rfl
  · have hzero : (t.toInt - m.toInt).toNat = 0 := by omega
    rw [setScale_of_eq u hsame, hzero]
    exact (raised_zero u).symm

/-- The sign of a difference tells the order of two integers. -/
theorem order_eq_sign (x y : Int) :
    (if x = y then 0 else if x < y then -1 else 1) = (x - y).sign := by
  rcases Int.lt_trichotomy x y with hlt | heq | hgt
  · rw [if_neg (by omega), if_pos hlt, Int.sign_eq_neg_one_of_neg (by omega)]
  · rw [if_pos heq, heq, Int.sub_self, Int.sign_zero]
  · rw [if_neg (by omega), if_neg (by omega), Int.sign_eq_one_of_pos (by omega)]

/-- Two decimals are compared as integers with the places of the larger scale. -/
theorem compare_eq (u v : Int) (m n : Whole) :
    (ofPlaces u m).compare (ofPlaces v n) =
      raised u (.ofInt (n.toInt - m.toInt).toNat) >>= fun x =>
        (raised v (.ofInt (m.toInt - n.toInt).toNat)).map fun y => (x - y).sign := by
  have hbind (p q : Scale) (a b : Decimal) :
      (a.setScale p >>= fun x => b.setScale q >>= fun y =>
        (pure (if x.unscaled = y.unscaled then 0
          else if x.unscaled < y.unscaled then -1 else 1) : Except Failure Int)) =
      (a.setScale p).map unscaled >>= fun x =>
        ((b.setScale q).map unscaled).map fun y => (x - y).sign := by
    cases a.setScale p with
    | error f => rfl
    | ok x =>
      cases b.setScale q with
      | error f => rfl
      | ok y =>
        simp only [Outcome.ok_bind, order_eq_sign]
        rfl
  rw [compare, hbind]
  by_cases hbelow : m.toInt < n.toInt
  · have hlarger : largerScale (.places m) (.places n) = .places n := by
      simp [largerScale, Scale.below, hbelow]
    have hzero : (m.toInt - n.toInt).toNat = (n.toInt - n.toInt).toNat := by omega
    rw [hlarger, map_unscaled_setScale u hbelow.le, map_unscaled_setScale v le_rfl, hzero]
  · have hlarger : largerScale (.places m) (.places n) = .places m := by
      simp [largerScale, Scale.below, hbelow]
    have hzero : (n.toInt - m.toInt).toNat = (m.toInt - m.toInt).toNat := by omega
    rw [hlarger, map_unscaled_setScale u le_rfl, map_unscaled_setScale v (by omega), hzero]

/-- The integers that two decimals are compared as are in the order of their numbers. -/
theorem sign_sub_eq_sign (u v m n : Int) :
    (u * 10 ^ (n - m).toNat - v * 10 ^ (m - n).toNat).sign =
      SignType.sign (rational u m - rational v n) := by
  have hx := rational_mul_pow u (le_max_left m n)
  have hy := rational_mul_pow v (le_max_right m n)
  have hm : (max m n - m).toNat = (n - m).toNat := by omega
  have hn : (max m n - n).toNat = (m - n).toNat := by omega
  rw [hm] at hx
  rw [hn] at hy
  exact (sign_sub_of_mul_pow hx hy).symm

/-- An order that is found is that of the numbers. -/
theorem compare_eq_ok {u v i : Int} {m n : Whole}
    (h : (ofPlaces u m).compare (ofPlaces v n) = .ok i) :
    i = SignType.sign (rational u m.toInt - rational v n.toInt) := by
  rw [compare_eq] at h
  obtain ⟨x, hx, h⟩ := Outcome.bind_eq_ok.mp h
  obtain ⟨y, hy, rfl⟩ := Outcome.map_eq_ok.mp h
  rw [raised_eq_ok hx, raised_eq_ok hy, sign_sub_eq_sign]

/-- An order that is not found would take too large an integer, or too large a power. -/
theorem name_of_compare_error {u v : Int} {m n : Whole} {f : Failure}
    (h : (ofPlaces u m).compare (ofPlaces v n) = .error f) : f.name = "RangeError" := by
  rw [compare_eq] at h
  rcases Outcome.bind_eq_error.mp h with hleft | ⟨x, -, hright⟩
  · exact name_of_raised_error hleft
  · exact name_of_raised_error (Outcome.map_eq_error.mp hright)

/-- The order is found if there is room for zeros behind the one with fewer places. -/
theorem compare_of_hasRoom {u v : Int} {m n : Whole}
    (hu : m.toInt < n.toInt → HasRoom u (n.toInt - m.toInt).toNat)
    (hv : n.toInt < m.toInt → HasRoom v (m.toInt - n.toInt).toNat) :
    (ofPlaces u m).compare (ofPlaces v n) =
      .ok (SignType.sign (rational u m.toInt - rational v n.toInt) : Int) := by
  rw [compare_eq, raised_of_hasRoom (fun hpos => hu (by omega)), Outcome.ok_bind,
    raised_of_hasRoom (fun hpos => hv (by omega)), ← sign_sub_eq_sign]
  rfl

/-- An order that is not positive is that of numbers of which the second is not less. -/
theorem compare_nonpos_iff {u v i : Int} {m n : Whole}
    (h : (ofPlaces u m).compare (ofPlaces v n) = .ok i) :
    i ≤ 0 ↔ rational u m.toInt ≤ rational v n.toInt := by
  rw [compare_eq_ok h]
  rcases lt_trichotomy (rational u m.toInt) (rational v n.toInt) with hlt | heq | hgt
  · rw [sign_neg (sub_neg.mpr hlt)]
    simp [hlt.le]
  · rw [heq, sub_self, sign_zero]
    simp
  · rw [sign_pos (sub_pos.mpr hgt)]
    simp [hgt]

theorem compare_of_same {u v : Int} {m n : Whole} (h : (ofPlaces u m).same (ofPlaces v n) = true) :
    (ofPlaces u m).compare (ofPlaces v n) = .ok 0 := by
  obtain ⟨rfl, hplaces⟩ : u = v ∧ m.toInt = n.toInt := by
    simpa [same, Scale.same] using h
  rw [compare_of_hasRoom (by omega) (by omega), hplaces, sub_self, sign_zero]
  rfl

/-- Of two decimals in the other order the sign is the other one. -/
theorem compare_swap (u v : Int) (m n : Whole) :
    (ofPlaces v n).compare (ofPlaces u m) =
      ((ofPlaces u m).compare (ofPlaces v n)).map (-·) := by
  -- only the one with fewer places can fail to be raised
  rw [compare_eq, compare_eq]
  rcases Int.le_total m.toInt n.toInt with hle | hge
  · have hzero : (m.toInt - n.toInt).toNat = 0 := by omega
    rw [hzero, Int.natCast_zero, raised_zero, Outcome.ok_bind]
    cases raised u (.ofInt (n.toInt - m.toInt).toNat) with
    | error f => rfl
    | ok x => simp [Except.map, ← Int.sign_neg]
  · have hzero : (n.toInt - m.toInt).toNat = 0 := by omega
    rw [hzero, Int.natCast_zero, raised_zero, Outcome.ok_bind]
    cases raised v (.ofInt (m.toInt - n.toInt).toNat) with
    | error f => rfl
    | ok y => simp [Except.map, ← Int.sign_neg]

/-! ## Rescaling -/

/-- What a decimal is rescaled to has the other scale, and its integer is the number in units of the
last place. -/
theorem exists_of_setScale {u : Int} {m t : Whole} {d : Decimal}
    (h : (ofPlaces u m).setScale (.places t) = .ok d) :
    ∃ (k : Int) (s : Whole), d = ofPlaces k s ∧ s.toInt = t.toInt ∧
      rational u m.toInt * 10 ^ t.toInt = k := by
  rcases Int.lt_trichotomy m.toInt t.toInt with hlt | heq | hgt
  · rw [setScale_of_lt u hlt] at h
    obtain ⟨k, hk, rfl⟩ := Outcome.map_eq_ok.mp h
    exact ⟨k, t, rfl, rfl, by rw [raised_eq_ok hk, rational_mul_pow u hlt.le]⟩
  · rw [setScale_of_eq u heq] at h
    obtain rfl := Except.ok.inj h
    refine ⟨u, m, rfl, heq, ?_⟩
    rw [rational_eq_iff heq.ge]
    simp [heq]
  · rw [setScale_of_gt u hgt] at h
    obtain ⟨k, hk, rfl⟩ := Outcome.map_eq_ok.mp h
    exact ⟨k, t, rfl, rfl, (rational_eq_iff hgt.le).mpr (lowered_eq_ok hk)⟩

/-- Rescaling fails where the number is no such integer, or for a size. -/
theorem setScale_eq_error {u : Int} {m t : Whole} {f : Failure}
    (h : (ofPlaces u m).setScale (.places t) = .error f) :
    ((¬∃ k : Int, rational u m.toInt * 10 ^ t.toInt = k) ∧
        ∃ e, f = .conversion e ∧ e.code = .precisionLoss) ∨ f.name = "RangeError" := by
  rcases Int.lt_trichotomy m.toInt t.toInt with hlt | heq | hgt
  · rw [setScale_of_lt u hlt] at h
    exact Or.inr (name_of_raised_error (Outcome.map_eq_error.mp h))
  · rw [setScale_of_eq u heq] at h
    exact absurd h (by simp)
  · rw [setScale_of_gt u hgt] at h
    rw [exists_integer_iff hgt.le]
    exact precisionLoss_or_name_of_lowered (Outcome.map_eq_error.mp h)

/-- If there is room for the zeros, a decimal is rescaled just if its number is such an integer. -/
theorem exists_setScale_iff {u : Int} {m t : Whole}
    (hroom : HasRoom u (t.toInt - m.toInt).natAbs) :
    (∃ d, (ofPlaces u m).setScale (.places t) = .ok d) ↔
      ∃ k : Int, rational u m.toInt * 10 ^ t.toInt = k := by
  constructor
  · rintro ⟨d, hd⟩
    obtain ⟨k, -, -, -, hk⟩ := exists_of_setScale hd
    exact ⟨k, hk⟩
  · intro hinteger
    rcases Int.lt_trichotomy m.toInt t.toInt with hlt | heq | hgt
    · have hzeros : HasRoom u (t.toInt - m.toInt).toNat := hroom.mono le_rfl (by omega)
      rw [setScale_of_lt u hlt, raised_of_hasRoom fun _ => hzeros]
      exact ⟨_, rfl⟩
    · exact ⟨_, setScale_of_eq u heq⟩
    · have hgap : (m.toInt - t.toInt).toNat ≤ 300000000 := by
        have hle := hroom.zeros_le
        omega
      rw [setScale_of_gt u hgt, lowered_of_le hgap,
        if_pos ((exists_integer_iff hgt.le).mp hinteger)]
      exact ⟨_, rfl⟩

theorem length_text_toDouble {t : Whole} (h : t.toInt.natAbs < 10 ^ 9) :
    t.toDouble.text.length ≤ 100 := by
  cases t with
  | negZero => decide +kernel
  | ofInt n =>
    have hbits : n.natAbs < 2 ^ 53 := h.trans (by decide)
    rw [Whole.toDouble, Double.text_ofInt hbits]
    exact (length_toString_le h).trans (by decide)

/-- If there is also room for the places of the decimal, digits that would be lost are told. -/
theorem exists_setScale_precisionLoss {u : Int} {m t : Whole}
    (hgap : HasRoom u (t.toInt - m.toInt).natAbs) (hplaces : HasRoom u m.toInt.natAbs)
    (hpart : ¬∃ k : Int, rational u m.toInt * 10 ^ t.toInt = k) :
    ∃ e, (ofPlaces u m).setScale (.places t) = .error (.conversion e) ∧
      e.code = .precisionLoss := by
  have hgt : t.toInt < m.toInt := by
    by_contra hle
    exact hpart ⟨_, rational_mul_pow u (Int.not_lt.mp hle)⟩
  have hzeros : (m.toInt - t.toInt).toNat ≤ 300000000 := by
    have hle := hgap.zeros_le
    omega
  have htarget : t.toInt.natAbs < 10 ^ 9 := by
    have hle := hplaces.zeros_le
    omega
  rw [exists_integer_iff hgt.le] at hpart
  obtain ⟨e, he, hcode⟩ :=
    exists_precisionLoss hzeros hplaces (length_text_toDouble htarget) hpart
  rw [setScale_of_gt u hgt, he]
  exact ⟨e, rfl, hcode⟩

/-- A decimal and the same number at another scale are in one place of the order. -/
theorem compare_of_rational_eq {u k : Int} {m s : Whole}
    (hroom : HasRoom u (s.toInt - m.toInt).natAbs) (hk : rational u m.toInt * 10 ^ s.toInt = k) :
    (ofPlaces k s).compare (ofPlaces u m) = .ok 0 := by
  rw [compare_of_hasRoom, rational_eq_of_mul_pow hk, sub_self, sign_zero]
  · rfl
  · intro hlt
    have hle : k.natAbs ≤ u.natAbs := by
      rw [← (rational_eq_iff hlt.le).mp hk, Int.natAbs_mul, Int.natAbs_pow]
      exact Nat.le_mul_of_pos_right _ (Nat.pow_pos (by decide))
    exact hroom.mono hle (by omega)
  · intro hgt
    exact hroom.mono le_rfl (by omega)

/-- A number that is an integer is a scale. -/
theorem setScaleNumber_of_whole (d : Decimal) {scale : Double} {t : Whole}
    (h : Whole.ofDouble? scale = some t) : d.setScaleNumber scale = d.setScale (.places t) := by
  have hnumber : Scale.ofNumber? scale = some (.places t) := by
    cases scale with
    | infinity negative => exact absurd h (by simp [Whole.ofDouble?, Double.whole?])
    | _ => simp only [Scale.ofNumber?, Scale.ofDouble?, h, Option.map_some]
  rw [setScaleNumber, hnumber]

/-! ## Comparing and rescaling -/

/-- Comparing follows the numbers: whenever it answers, it tells the sign of their difference, and
so it orders decimals of finitely many places, equal ones in one place. It answers if there is room
for zeros behind the one with fewer places, and fails for a size only. What a decimal is rescaled to
has the other scale and is the same number, which is an integer in units of the last place. Where it
is not, rescaling fails with a loss of precision; all other failures are for a size, and there is
none as long as there is room for the digits and the zeros. -/
theorem compare_setScale_ofPlaces (u v : Int) (m n : Whole) :
    ((∀ {i}, (ofPlaces u m).compare (ofPlaces v n) = .ok i →
        i = SignType.sign (rational u m.toInt - rational v n.toInt)) ∧
      (∀ {f}, (ofPlaces u m).compare (ofPlaces v n) = .error f → f.name = "RangeError") ∧
      ((m.toInt < n.toInt → HasRoom u (n.toInt - m.toInt).toNat) →
        (n.toInt < m.toInt → HasRoom v (m.toInt - n.toInt).toNat) →
        ∃ i, (ofPlaces u m).compare (ofPlaces v n) = .ok i)) ∧
    ((ofPlaces u m).same (ofPlaces v n) = true →
      (ofPlaces u m).compare (ofPlaces v n) = .ok 0) ∧
    (ofPlaces v n).compare (ofPlaces u m) = ((ofPlaces u m).compare (ofPlaces v n)).map (-·) ∧
    (∀ {w : Int} {p : Whole} {i j k : Int}, (ofPlaces u m).compare (ofPlaces v n) = .ok i →
      (ofPlaces v n).compare (ofPlaces w p) = .ok j →
      (ofPlaces u m).compare (ofPlaces w p) = .ok k → i ≤ 0 → j ≤ 0 → k ≤ 0) ∧
    ∀ {scale : Double} {t : Whole}, Whole.ofDouble? scale = some t →
      (∀ {d}, (ofPlaces u m).setScaleNumber scale = .ok d →
        ∃ (k : Int) (s : Whole), d = ofPlaces k s ∧ s.toInt = t.toInt ∧
          rational u m.toInt * 10 ^ t.toInt = k ∧ rational k s.toInt = rational u m.toInt ∧
          (HasRoom u (t.toInt - m.toInt).natAbs → d.compare (ofPlaces u m) = .ok 0)) ∧
      (∀ {f}, (ofPlaces u m).setScaleNumber scale = .error f →
        ((¬∃ k : Int, rational u m.toInt * 10 ^ t.toInt = k) ∧
          ∃ e, f = .conversion e ∧ e.code = .precisionLoss) ∨ f.name = "RangeError") ∧
      (HasRoom u (t.toInt - m.toInt).natAbs →
        ((∃ d, (ofPlaces u m).setScaleNumber scale = .ok d) ↔
          ∃ k : Int, rational u m.toInt * 10 ^ t.toInt = k) ∧
        (HasRoom u m.toInt.natAbs → (¬∃ k : Int, rational u m.toInt * 10 ^ t.toInt = k) →
          ∃ e, (ofPlaces u m).setScaleNumber scale = .error (.conversion e) ∧
            e.code = .precisionLoss)) := by
  refine ⟨⟨compare_eq_ok, name_of_compare_error, fun hu hv => ⟨_, compare_of_hasRoom hu hv⟩⟩,
    compare_of_same, compare_swap u v m n, ?_, ?_⟩
  · intro w p i j k hij hjk hik hi hj
    rw [compare_nonpos_iff hij] at hi
    rw [compare_nonpos_iff hjk] at hj
    exact (compare_nonpos_iff hik).mpr (hi.trans hj)
  · intro scale t hscale
    rw [setScaleNumber_of_whole _ hscale]
    refine ⟨?_, setScale_eq_error, fun hroom =>
      ⟨exists_setScale_iff hroom, exists_setScale_precisionLoss hroom⟩⟩
    intro d hd
    obtain ⟨k, s, rfl, hs, hk⟩ := exists_of_setScale hd
    refine ⟨k, s, rfl, hs, hk, hs ▸ rational_eq_of_mul_pow hk, fun hroom => ?_⟩
    rw [← hs] at hroom hk
    exact compare_of_rational_eq hroom hk

/-- A tenth and a hundredth are told apart, and a tenth with the places of a hundredth is the same
number. With no place left a tenth loses its digit. -/
theorem compare_setScale_ofPlaces_tenth :
    (ofPlaces 1 (.ofInt 1)).compare (ofPlaces 1 (.ofInt 2)) = .ok 1 ∧
    (∃ d, (ofPlaces 1 (.ofInt 1)).setScaleNumber (.ofInt 2) = .ok d ∧
      d.compare (ofPlaces 1 (.ofInt 1)) = .ok 0) ∧
    ∃ e, (ofPlaces 1 (.ofInt 1)).setScaleNumber (.ofInt 0) = .error (.conversion e) ∧
      e.code = .precisionLoss := by
  obtain ⟨⟨hsign, -, hanswers⟩, -, -, -, hscale⟩ :=
    compare_setScale_ofPlaces 1 1 (.ofInt 1) (.ofInt 2)
  obtain ⟨hsame, -, hraised⟩ := hscale (Double.ofDouble?_ofInt (n := 2) (by decide))
  obtain ⟨-, -, hlowered⟩ := hscale (Double.ofDouble?_ofInt (n := 0) (by decide))
  have hroom : HasRoom 1 1 := ⟨1, by decide, by decide⟩
  refine ⟨?_, ?_, (hlowered hroom).2 hroom ?_⟩
  · have hless : rational 1 2 < rational 1 1 := by norm_num [rational]
    obtain ⟨i, hi⟩ := hanswers (fun _ => hroom) (fun hgt => absurd hgt (by decide))
    rw [hi, hsign hi, Whole.toInt_ofInt, Whole.toInt_ofInt, sign_pos (sub_pos.mpr hless)]
    rfl
  · obtain ⟨d, hd⟩ := (hraised hroom).1.mpr ⟨10, by norm_num [rational]⟩
    obtain ⟨k, s, -, -, -, -, hzero⟩ := hsame hd
    exact ⟨d, hd, hzero hroom⟩
  · rw [exists_integer_iff (by decide)]
    decide

/-- The order of one and a decimal with two thousand million places is not found, and a zero with so
many places cannot be written without them: the power of ten is too large. -/
theorem compare_setScale_tooLarge :
    (ofPlaces 1 (.ofInt 0)).compare (ofPlaces 1 (.ofInt 2000000000)) = .error tooLarge ∧
    rational 0 2000000000 * 10 ^ (0 : Int) = ((0 : Int) : ℚ) ∧
    (ofPlaces 0 (.ofInt 2000000000)).setScaleNumber (.ofInt 0) = .error tooLarge := by
  have hgap : integerOf (.ofInt 2000000000) = .ok 2000000000 := integerOf_ofInt (by decide)
  have hlarge : largestPower < (2000000000 : Int).toNat := by decide
  refine ⟨?_, by simp [rational], ?_⟩
  · have hraised : raised 1 (.ofInt 2000000000) = .error tooLarge := by
      rw [raised, hgap, Outcome.ok_bind, timesPower_of_gt 1 hlarge]
    exact (compare_eq 1 1 (.ofInt 0) (.ofInt 2000000000)).trans (congrArg (· >>= _) hraised)
  · have hzero : Whole.ofDouble? (.ofInt 0) = some (.ofInt 0) := Double.ofDouble?_ofInt (by decide)
    rw [setScaleNumber_of_whole _ hzero, setScale_of_gt 0 (by decide)]
    have hlowered (d : Decimal) (target : String) :
        d.lowered (.ofInt 2000000000) target = .error tooLarge := by
      rw [lowered, hgap, Outcome.ok_bind, powerOfTen_of_gt hlarge]
      rfl
    exact congrArg (Except.map _) (hlowered _ _)

end WarehouseRows.Decimal
