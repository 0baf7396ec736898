import Mathlib.Algebra.Order.Ring.Int
import Mathlib.Tactic.Positivity
import Mathlib.Tactic.Ring
import WarehouseRows.Decimal

/-!
# The bytes of unscaled integers

An integer has many forms in two's complement bytes, which differ in how often the sign is repeated
in front. Exactly one of them has no byte that could be left out. It is the one that is written; the
others are read as the same integer.

The writer takes bytes off the low end and the reader begins at the high end, so there are two laws
for the integer of bytes, one for a byte in front and one for a byte behind.

## Main definitions

* `Decimal.RepeatsSign`: whether a byte only repeats the sign of the byte behind it.
* `Decimal.withoutSignBytes`: bytes without those in front that only repeat the sign.
* `Decimal.IsReduced`: whether the first of the bytes is needed.

## Main results

* `Decimal.signedValue_range`: the integers of so many bytes.
* `Decimal.length_le_of_signedValue_eq`, `Decimal.eq_of_isReduced`: reduced bytes are the fewest of
  their integer, and no others of it are reduced.
* `Decimal.signedBytes_signedValue`: what is written for the integer of any bytes.
-/

namespace WarehouseRows.Decimal

/-! ## A byte in front -/

/-- The integer of one byte. -/
def signedByte (b : UInt8) : Int :=
  if 128 ≤ b.toNat then (b.toNat : Int) - 256 else b.toNat

theorem signedByte_range (b : UInt8) : -128 ≤ signedByte b ∧ signedByte b < 128 := by
  have hb := b.toNat_lt
  unfold signedByte
  split <;> omega

theorem unsignedValue_cons (a : UInt8) (bytes : List UInt8) :
    unsignedValue (a :: bytes) = a.toNat * 256 ^ bytes.length + unsignedValue bytes := by
  -- the reader goes on from the integer of the bytes before
  have hfrom : ∀ n, bytes.foldl (fun n b => n * 256 + b.toNat) n =
      n * 256 ^ bytes.length + unsignedValue bytes := by
    induction bytes with
    | nil => simp [unsignedValue]
    | cons b bytes ih =>
      intro n
      have hfirst : unsignedValue (b :: bytes) =
          bytes.foldl (fun n b => n * 256 + b.toNat) (0 * 256 + b.toNat) := rfl
      rw [List.foldl_cons, ih, hfirst, ih, List.length_cons, pow_succ]
      ring
  have hstart : unsignedValue (a :: bytes) =
      bytes.foldl (fun n b => n * 256 + b.toNat) (0 * 256 + a.toNat) := rfl
  rw [hstart, hfrom, zero_mul, zero_add]

theorem unsignedValue_lt (bytes : List UInt8) : unsignedValue bytes < 256 ^ bytes.length := by
  induction bytes with
  | nil => simp [unsignedValue]
  | cons a bytes ih =>
    have ha : a.toNat + 1 ≤ 256 := a.toNat_lt
    calc unsignedValue (a :: bytes)
        < (a.toNat + 1) * 256 ^ bytes.length := by
          rw [unsignedValue_cons, add_mul, one_mul]
          exact Nat.add_lt_add_left ih _
      _ ≤ 256 * 256 ^ bytes.length := Nat.mul_le_mul_right _ ha
      _ = 256 ^ (a :: bytes).length := by rw [List.length_cons, pow_succ, mul_comm]

/-- The first byte has the sign, and the others count on from it. -/
theorem signedValue_cons (a : UInt8) (bytes : List UInt8) :
    signedValue (a :: bytes) = signedByte a * 256 ^ bytes.length + unsignedValue bytes := by
  have hpow : ((Nat.pow 256 (a :: bytes).length : Nat) : Int) = 256 * 256 ^ bytes.length := by
    rw [List.length_cons, Nat.pow_eq, pow_succ]
    push_cast
    ring
  simp only [signedValue, signedByte, hpow, unsignedValue_cons]
  split
  · push_cast
    ring
  · push_cast
    ring

@[simp] theorem signedValue_singleton (b : UInt8) : signedValue [b] = signedByte b := by
  rw [signedValue_cons]
  simp [unsignedValue]

/-- The integers of so many bytes. -/
theorem signedValue_range (a : UInt8) (bytes : List UInt8) :
    -(128 * 256 ^ bytes.length) ≤ signedValue (a :: bytes) ∧
      signedValue (a :: bytes) < 128 * 256 ^ bytes.length := by
  have ha := signedByte_range a
  have hrest : (unsignedValue bytes : Int) < 256 ^ bytes.length := by
    exact_mod_cast unsignedValue_lt bytes
  have hpow : (0 : Int) < 256 ^ bytes.length := by positivity
  rw [signedValue_cons]
  constructor
  · have hlow := Int.mul_le_mul_of_nonneg_right ha.1 hpow.le
    omega
  · have hhigh := Int.mul_le_mul_of_nonneg_right (show signedByte a ≤ 127 by omega) hpow.le
    omega

/-- The range counted in bits. -/
theorem signedValue_bits {bytes : List UInt8} (h : bytes ≠ []) :
    -2 ^ (8 * bytes.length - 1) ≤ signedValue bytes ∧
      signedValue bytes < 2 ^ (8 * bytes.length - 1) := by
  obtain ⟨a, bytes, rfl⟩ := List.exists_cons_of_ne_nil h
  have hbits : (128 * 256 ^ bytes.length : Int) = 2 ^ (8 * (a :: bytes).length - 1) := by
    have hexponent : 8 * (a :: bytes).length - 1 = 7 + 8 * bytes.length := by
      rw [List.length_cons]
      omega
    rw [hexponent, pow_add, pow_mul]
    norm_num
  rw [← hbits]
  exact signedValue_range a bytes

/-! ## A byte behind -/

theorem unsignedValue_append (bytes : List UInt8) (b : UInt8) :
    unsignedValue (bytes ++ [b]) = unsignedValue bytes * 256 + b.toNat := by
  simp only [unsignedValue, List.foldl_append, List.foldl_cons, List.foldl_nil]

/-- A byte behind others is the low byte of their integer. -/
theorem signedValue_append (a : UInt8) (bytes : List UInt8) (b : UInt8) :
    signedValue (a :: bytes ++ [b]) = signedValue (a :: bytes) * 256 + b.toNat := by
  rw [List.cons_append, signedValue_cons, signedValue_cons, unsignedValue_append,
    List.length_append, List.length_singleton, pow_succ]
  push_cast
  ring

/-! ## Bytes that only repeat the sign -/

/-- Whether a byte in front of another only repeats its sign. -/
def RepeatsSign (a b : UInt8) : Prop :=
  a = 0 ∧ b.toNat < 128 ∨ a = 255 ∧ 128 ≤ b.toNat

instance (a b : UInt8) : Decidable (RepeatsSign a b) :=
  inferInstanceAs (Decidable (_ ∨ _))

/-- Bytes without those in front that only repeat the sign. -/
def withoutSignBytes : List UInt8 → List UInt8
  | a :: b :: rest => if RepeatsSign a b then withoutSignBytes (b :: rest) else a :: b :: rest
  | bytes => bytes

/-- Whether the first of some bytes is needed: it is the only one, or does more than repeat the
sign. -/
def IsReduced : List UInt8 → Prop
  | a :: b :: _ => ¬RepeatsSign a b
  | [_] => True
  | [] => False

theorem repeatsSign_iff (a b : UInt8) :
    RepeatsSign a b ↔
      signedByte a * 256 + b.toNat = signedByte b := by
  have ha := a.toNat_lt
  have hb := b.toNat_lt
  have hzero : a = 0 ↔ a.toNat = 0 := UInt8.toNat_inj.symm
  have hones : a = 255 ↔ a.toNat = 255 := UInt8.toNat_inj.symm
  simp only [RepeatsSign, hzero, hones, signedByte]
  split <;> split <;> omega

/-- A byte that only repeats the sign does not count. -/
theorem signedValue_of_repeatsSign {a b : UInt8} (rest : List UInt8) (h : RepeatsSign a b) :
    signedValue (a :: b :: rest) = signedValue (b :: rest) := by
  have hbytes := (repeatsSign_iff a b).mp h
  rw [signedValue_cons, signedValue_cons, unsignedValue_cons, ← hbytes, List.length_cons, pow_succ]
  push_cast
  ring

/-- With a first byte that is needed, the integer is none of one byte less. -/
theorem signedValue_of_not_repeatsSign {a b : UInt8} (rest : List UInt8) (h : ¬RepeatsSign a b) :
    signedValue (a :: b :: rest) < -(128 * 256 ^ rest.length) ∨
      128 * 256 ^ rest.length ≤ signedValue (a :: b :: rest) := by
  have hb := b.toNat_lt
  have houtside : signedByte a * 256 + b.toNat < -128 ∨ 128 ≤ signedByte a * 256 + b.toNat := by
    have ha := signedByte_range a
    rw [repeatsSign_iff, signedByte.eq_def b] at h
    split at h <;> omega
  have hrest : (unsignedValue rest : Int) < 256 ^ rest.length := by
    exact_mod_cast unsignedValue_lt rest
  have hpow : (0 : Int) < 256 ^ rest.length := by positivity
  have hvalue : signedValue (a :: b :: rest) =
      (signedByte a * 256 + b.toNat) * 256 ^ rest.length + unsignedValue rest := by
    rw [signedValue_cons, unsignedValue_cons, List.length_cons, pow_succ]
    push_cast
    ring
  rw [hvalue]
  rcases houtside with hlow | hhigh
  · left
    have hle := Int.mul_le_mul_of_nonneg_right
      (show signedByte a * 256 + b.toNat ≤ -129 by omega) hpow.le
    omega
  · right
    have hle := Int.mul_le_mul_of_nonneg_right hhigh hpow.le
    omega

/-! ## Reduced bytes -/

theorem IsReduced.ne_nil {bytes : List UInt8} (h : IsReduced bytes) : bytes ≠ [] := by
  rintro rfl
  exact h

/-- Reduced bytes are the fewest of their integer. -/
theorem length_le_of_signedValue_eq {bytes others : List UInt8} (h : IsReduced bytes)
    (hne : others ≠ []) (hvalue : signedValue others = signedValue bytes) :
    bytes.length ≤ others.length := by
  match bytes, h with
  | [_], _ => exact List.length_pos_iff.mpr hne
  | a :: b :: rest, h =>
    obtain ⟨c, others, rfl⟩ := List.exists_cons_of_ne_nil hne
    by_contra hshort
    have hle : others.length ≤ rest.length := by
      simp only [List.length_cons] at hshort
      omega
    have hpow : (256 : Int) ^ others.length ≤ 256 ^ rest.length :=
      pow_le_pow_right₀ (by decide) hle
    have hrange := signedValue_range c others
    rw [hvalue] at hrange
    rcases signedValue_of_not_repeatsSign rest h with hlow | hhigh <;> omega

theorem unsignedValue_injective {xs ys : List UInt8} (hlen : xs.length = ys.length)
    (hvalue : unsignedValue xs = unsignedValue ys) : xs = ys := by
  induction xs generalizing ys with
  | nil => exact (List.length_eq_zero_iff.mp hlen.symm).symm
  | cons x xs ih =>
    obtain ⟨y, ys, rfl⟩ := List.exists_cons_of_ne_nil
      (List.ne_nil_of_length_pos (by rw [← hlen]; exact Nat.succ_pos _) : ys ≠ [])
    have hlen : xs.length = ys.length := Nat.succ.inj hlen
    have hx := unsignedValue_lt xs
    have hy := unsignedValue_lt ys
    rw [unsignedValue_cons, unsignedValue_cons, ← hlen] at hvalue
    rw [← hlen] at hy
    have hpow : 0 < 256 ^ xs.length := by positivity
    have hhead : x.toNat = y.toNat := by
      have hdiv := congrArg (· / 256 ^ xs.length) hvalue
      simpa [Nat.mul_comm _ (256 ^ xs.length), Nat.mul_add_div hpow, Nat.div_eq_of_lt hx,
        Nat.div_eq_of_lt hy] using hdiv
    have htail : unsignedValue xs = unsignedValue ys := by
      rw [hhead] at hvalue
      exact Nat.add_left_cancel hvalue
    rw [UInt8.toNat_inj.mp hhead, ih hlen htail]

/-- Bytes of one length are those of one integer only. -/
theorem signedValue_injective {xs ys : List UInt8} (hlen : xs.length = ys.length)
    (hvalue : signedValue xs = signedValue ys) : xs = ys := by
  refine unsignedValue_injective hlen ?_
  have hmod (bytes : List UInt8) :
      signedValue bytes % 256 ^ bytes.length = unsignedValue bytes := by
    have hlt : (unsignedValue bytes : Int) < 256 ^ bytes.length := by
      exact_mod_cast unsignedValue_lt bytes
    have hself : (unsignedValue bytes : Int) % 256 ^ bytes.length = unsignedValue bytes :=
      Int.emod_eq_of_lt (Int.natCast_nonneg _) hlt
    have hpow : ((Nat.pow 256 bytes.length : Nat) : Int) = 256 ^ bytes.length := by
      rw [Nat.pow_eq]
      push_cast
      rfl
    cases bytes with
    | nil => exact hself
    | cons a bytes =>
      simp only [signedValue, hpow]
      split
      · rw [Int.sub_emod_right, hself]
      · exact hself
  have hxs := hmod xs
  rw [hvalue, hlen, hmod ys] at hxs
  exact_mod_cast hxs.symm

/-- An integer has only one reduced form. -/
theorem eq_of_isReduced {xs ys : List UInt8} (hx : IsReduced xs) (hy : IsReduced ys)
    (hvalue : signedValue xs = signedValue ys) : xs = ys :=
  signedValue_injective
    (Nat.le_antisymm (length_le_of_signedValue_eq hx hy.ne_nil hvalue.symm)
      (length_le_of_signedValue_eq hy hx.ne_nil hvalue)) hvalue

/-! ## Leaving bytes out -/

@[simp] theorem signedValue_withoutSignBytes (bytes : List UInt8) :
    signedValue (withoutSignBytes bytes) = signedValue bytes := by
  fun_induction withoutSignBytes bytes with
  | case1 a b rest hrepeats ih => rw [ih, signedValue_of_repeatsSign rest hrepeats]
  | case2 => rfl
  | case3 => rfl

theorem isReduced_withoutSignBytes {bytes : List UInt8} (h : bytes ≠ []) :
    IsReduced (withoutSignBytes bytes) := by
  fun_induction withoutSignBytes bytes with
  | case1 a b rest hrepeats ih => exact ih (List.cons_ne_nil b rest)
  | case2 a b rest hneeded => exact hneeded
  | case3 bytes hshort =>
    match bytes, hshort with
    | [], _ => exact absurd rfl h
    | [_], _ => exact trivial
    | a :: b :: rest, hshort => exact absurd rfl (hshort a b rest)

theorem withoutSignBytes_suffix (bytes : List UInt8) : withoutSignBytes bytes <:+ bytes := by
  fun_induction withoutSignBytes bytes with
  | case1 a b rest hrepeats ih => exact ih.trans (List.suffix_cons a (b :: rest))
  | case2 => exact List.suffix_rfl
  | case3 => exact List.suffix_rfl

/-! ## The bytes that are written -/

theorem toNat_lowByte (n : Int) : ((lowByte n).toNat : Int) = n % 256 := by
  rw [lowByte, UInt8.toNat_ofNat']
  omega

/-- The bytes end as soon as the integer is one of a single byte: just then what is left of it
repeats the sign bit of the byte that was taken off. -/
theorem signedBytes_eq (n : Int) (tail : List UInt8) :
    signedBytes n tail =
      if -128 ≤ n ∧ n < 128 then lowByte n :: tail
      else signedBytes (n / 256) (lowByte n :: tail) := by
  have hlow := toNat_lowByte n
  have hends : (n / 256 = 0 ∧ (lowByte n).toNat < 128 ∨ n / 256 = -1 ∧ 128 ≤ (lowByte n).toNat) ↔
      -128 ≤ n ∧ n < 128 := by
    omega
  rw [signedBytes]
  simp only [hends]

/-- Integers of one byte, and from what is left without the low byte to the whole. -/
theorem byte_induction {motive : Int → Prop} (last : ∀ n, -128 ≤ n ∧ n < 128 → motive n)
    (more : ∀ n, ¬(-128 ≤ n ∧ n < 128) → motive (n / 256) → motive n) (n : Int) : motive n := by
  induction n, ([] : List UInt8) using signedBytes.induct with
  | case1 n tail hends =>
    have hlow := toNat_lowByte n
    exact last n (by omega)
  | case2 n tail hgoesOn ih =>
    have hlow := toNat_lowByte n
    exact more n (by omega) ih

theorem signedBytes_append (n : Int) (tail : List UInt8) :
    signedBytes n tail = signedBytes n [] ++ tail := by
  induction n using byte_induction generalizing tail with
  | last n hlast => simp only [signedBytes_eq n, if_pos hlast, List.singleton_append]
  | more n hmore ih =>
    simp only [signedBytes_eq n, if_neg hmore]
    rw [ih (lowByte n :: tail), ih [lowByte n], List.append_assoc, List.singleton_append]

theorem signedBytes_last {n : Int} (h : -128 ≤ n ∧ n < 128) : signedBytes n [] = [lowByte n] := by
  rw [signedBytes_eq, if_pos h]

theorem signedBytes_more {n : Int} (h : ¬(-128 ≤ n ∧ n < 128)) :
    signedBytes n [] = signedBytes (n / 256) [] ++ [lowByte n] := by
  rw [signedBytes_eq, if_neg h, signedBytes_append]

theorem signedByte_lowByte {n : Int} (h : -128 ≤ n ∧ n < 128) : signedByte (lowByte n) = n := by
  have hlow := toNat_lowByte n
  unfold signedByte
  split <;> omega

theorem signedBytes_ne_nil (n : Int) : signedBytes n [] ≠ [] := by
  rw [signedBytes_eq]
  split
  · exact List.cons_ne_nil _ _
  · rw [signedBytes_append]
    simp

/-- The bytes of an integer are read as the integer. -/
@[simp] theorem signedValue_signedBytes (n : Int) : signedValue (signedBytes n []) = n := by
  induction n using byte_induction with
  | last n hlast => rw [signedBytes_last hlast, signedValue_singleton, signedByte_lowByte hlast]
  | more n hmore ih =>
    obtain ⟨a, bytes, hbytes⟩ := List.exists_cons_of_ne_nil (signedBytes_ne_nil (n / 256))
    rw [hbytes] at ih
    rw [signedBytes_more hmore, hbytes, signedValue_append, ih, toNat_lowByte]
    omega

/-- No byte that is written could be left out. -/
theorem isReduced_signedBytes (n : Int) : IsReduced (signedBytes n []) := by
  induction n using byte_induction with
  | last n hlast =>
    rw [signedBytes_last hlast]
    exact trivial
  | more n hmore ih =>
    have hvalue := signedValue_signedBytes (n / 256)
    rw [signedBytes_more hmore]
    match signedBytes (n / 256) [], ih, hvalue with
    | [a], _, hvalue =>
      -- a first byte that repeats the sign would leave an integer of one byte
      rw [signedValue_singleton] at hvalue
      have hlow := toNat_lowByte n
      have hrange := signedByte_range (lowByte n)
      change ¬RepeatsSign a (lowByte n)
      rw [repeatsSign_iff, hvalue]
      omega
    | a :: b :: rest, ih, _ => exact ih

/-- What is written for the integer of some bytes is the bytes without those in front that only
repeat the sign. -/
theorem signedBytes_signedValue {bytes : List UInt8} (h : bytes ≠ []) :
    signedBytes (signedValue bytes) [] = withoutSignBytes bytes :=
  eq_of_isReduced (isReduced_signedBytes _) (isReduced_withoutSignBytes h) (by simp)

/-- Bytes are as they are written just if there are no fewer of their integer. -/
theorem withoutSignBytes_eq_self_iff {bytes : List UInt8} (h : bytes ≠ []) :
    withoutSignBytes bytes = bytes ↔
      ∀ others ≠ [], signedValue others = signedValue bytes → bytes.length ≤ others.length := by
  have hreduced := isReduced_withoutSignBytes h
  constructor
  · intro hself others hne hvalue
    rw [hself] at hreduced
    exact length_le_of_signedValue_eq hreduced hne hvalue
  · intro hfewest
    exact (withoutSignBytes_suffix bytes).eq_of_length_le
      (hfewest _ hreduced.ne_nil (signedValue_withoutSignBytes bytes))

/-! ## Decimals -/

theorem ofBytes_eq {scale : Double} {s : Scale} (hs : Scale.ofDouble? scale = some s)
    (bytes : List UInt8) : ofBytes bytes scale = .ok ⟨signedValue bytes, s⟩ := by
  simp only [ofBytes, ofParts, hs]

/-- At a scale, bytes are read as a decimal just if they are those of its unscaled integer. -/
theorem ofBytes_eq_ok_iff {scale : Double} {s : Scale} (hs : Scale.ofDouble? scale = some s)
    (bytes : List UInt8) (u : Int) : ofBytes bytes scale = .ok ⟨u, s⟩ ↔ signedValue bytes = u := by
  simp [ofBytes_eq hs]

/-- A decimal is read from the bytes that are written for it, and no fewer bytes are read as it.
Bytes, if there are any, are read as an integer in the range of so many bytes; what is written for
it is the bytes without those in front that only repeat the sign, and so the bytes themselves just
if no fewer are read as the integer. -/
theorem ofBytes_toBytes_fewest {scale : Double} {s : Scale}
    (hs : Scale.ofDouble? scale = some s) :
    (∀ u : Int, ofParts u scale = .ok ⟨u, s⟩ ∧ toBytes ⟨u, s⟩ ≠ [] ∧
      ofBytes (toBytes ⟨u, s⟩) scale = .ok ⟨u, s⟩ ∧
      ∀ bytes ≠ [], ofBytes bytes scale = .ok ⟨u, s⟩ →
        (toBytes ⟨u, s⟩).length ≤ bytes.length) ∧
    ∀ bytes ≠ [], ∃ u : Int, ofBytes bytes scale = .ok ⟨u, s⟩ ∧
      -2 ^ (8 * bytes.length - 1) ≤ u ∧ u ≤ 2 ^ (8 * bytes.length - 1) - 1 ∧
      toBytes ⟨u, s⟩ = withoutSignBytes bytes ∧
      (toBytes ⟨u, s⟩ = bytes ↔
        ∀ others ≠ [], ofBytes others scale = .ok ⟨u, s⟩ → bytes.length ≤ others.length) := by
  simp only [ofBytes_eq_ok_iff hs]
  constructor
  · intro u
    refine ⟨by simp only [ofParts, hs], signedBytes_ne_nil u, signedValue_signedBytes u, ?_⟩
    intro bytes hne hvalue
    exact length_le_of_signedValue_eq (isReduced_signedBytes u) hne
      (hvalue.trans (signedValue_signedBytes u).symm)
  · intro bytes hne
    have hwritten : toBytes ⟨signedValue bytes, s⟩ = withoutSignBytes bytes :=
      signedBytes_signedValue hne
    obtain ⟨hlow, hhigh⟩ := signedValue_bits hne
    refine ⟨signedValue bytes, rfl, hlow, Int.le_sub_one_of_lt hhigh, hwritten, ?_⟩
    rw [hwritten]
    exact withoutSignBytes_eq_self_iff hne

/-- Next to `-128` one byte is not enough, and a second sign byte is left out. -/
theorem ofBytes_toBytes_fewest_boundary :
    Scale.ofDouble? (Double.ofInt 2) = some (.ofInt 2) ∧
    (∀ bytes ≠ [], ofBytes bytes (Double.ofInt 2) = .ok ⟨-129, .ofInt 2⟩ → 2 ≤ bytes.length) ∧
    ofBytes [0xFF, 0xFF, 0x7F] (Double.ofInt 2) = .ok ⟨-129, .ofInt 2⟩ ∧
    toBytes ⟨-129, .ofInt 2⟩ = [0xFF, 0x7F] := by
  have hscale : Scale.ofDouble? (Double.ofInt 2) = some (.ofInt 2) := by decide
  obtain ⟨hwritten, hread⟩ := ofBytes_toBytes_fewest hscale
  obtain ⟨u, hu, -, -, hbytes, -⟩ := hread [0xFF, 0xFF, 0x7F] (by simp)
  have hvalue : ofBytes [0xFF, 0xFF, 0x7F] (Double.ofInt 2) = .ok ⟨-129, .ofInt 2⟩ :=
    (ofBytes_eq_ok_iff hscale _ _).mpr (by decide)
  obtain rfl : -129 = u := by simpa using hvalue.symm.trans hu
  have hshort : withoutSignBytes [0xFF, 0xFF, 0x7F] = [0xFF, 0x7F] := by decide
  rw [hshort] at hbytes
  obtain ⟨-, -, -, hfewest⟩ := hwritten (-129)
  rw [hbytes] at hfewest
  exact ⟨hscale, hfewest, hvalue, hbytes⟩

end WarehouseRows.Decimal
