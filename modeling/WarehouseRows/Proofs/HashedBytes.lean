import Mathlib
import WarehouseRows.Fingerprint.Murmur3

/-!
# Bytes that hash differently

The hash takes its input in blocks of four bytes, and every step between them can be undone: words
are multiplied by odd constants, turned, shifted onto themselves and combined by exclusive or. So
runs of bytes of one length that differ in one block only, which may be the incomplete one at the
end, leave different states behind and have different hashes.

## Main definitions

* `Murmur3.DifferInBlock`: runs of bytes that differ in one block only.
-/

namespace WarehouseRows.Murmur3

/-! ## Steps that can be undone -/

/-- A factor that has an inverse loses nothing. -/
theorem mul_injective {c d x y : UInt32} (hcd : c * d = 1) (h : x * c = y * c) : x = y := by
  have hback := congrArg (· * d) h
  simpa only [UInt32.mul_assoc, hcd, UInt32.mul_one] using hback

/-- Combining a word with its own upper bits loses nothing: where two words give the same, their
difference is a fraction of itself. -/
theorem xorShift_injective {s x y : UInt32} (hs : s.toNat % 32 ≠ 0)
    (h : x ^^^ (x >>> s) = y ^^^ (y >>> s)) : x = y := by
  have hdiff : x ^^^ y = (x ^^^ y) >>> s := by
    have hsum : (x ^^^ (x >>> s)) ^^^ (y ^^^ (y >>> s)) = 0 := UInt32.xor_eq_zero_iff.mpr h
    rw [UInt32.shiftRight_xor, ← UInt32.xor_eq_zero_iff, ← hsum]
    ac_rfl
  have hnat : (x ^^^ y).toNat = (x ^^^ y).toNat / 2 ^ (s.toNat % 32) := by
    have := congrArg UInt32.toNat hdiff
    rwa [UInt32.toNat_shiftRight, Nat.shiftRight_eq_div_pow] at this
  have hzero : (x ^^^ y).toNat = 0 := by
    rcases Nat.eq_zero_or_pos (x ^^^ y).toNat with hzero | hpos
    · exact hzero
    · have hlt := Nat.div_lt_self hpos (Nat.one_lt_two_pow hs)
      omega
  exact UInt32.xor_eq_zero_iff.mp (UInt32.toNat_inj.mp hzero)

/-- Where a bit of a word stands after the word was turned. -/
theorem getLsbD_rotateLeft {n : UInt32} (h0 : 0 < n.toNat) (h1 : n.toNat < 32) (x : UInt32)
    {i : Nat} (hi : i < 32) :
    (rotateLeft x n).toBitVec.getLsbD ((i + n.toNat) % 32) = x.toBitVec.getLsbD i := by
  have hback : (32 - n).toNat = 32 - n.toNat := UInt32.toNat_sub_of_le 32 n (Nat.le_of_lt h1)
  have hlt : (32 - n).toNat < 32 := by omega
  have hn : (n.toBitVec % 32).toNat = n.toNat := Nat.mod_eq_of_lt h1
  have hm : ((32 - n).toBitVec % 32).toNat = 32 - n.toNat := by
    rw [← hback]
    exact Nat.mod_eq_of_lt hlt
  simp only [rotateLeft, UInt32.toBitVec_or, UInt32.toBitVec_shiftLeft, UInt32.toBitVec_shiftRight,
    BitVec.getLsbD_or, BitVec.shiftLeft_eq', BitVec.ushiftRight_eq', BitVec.getLsbD_shiftLeft,
    BitVec.getLsbD_ushiftRight, hn, hm]
  by_cases hover : i + n.toNat < 32
  · have hmod : (i + n.toNat) % 32 = i + n.toNat := Nat.mod_eq_of_lt hover
    have hhigh : x.toBitVec.getLsbD (32 - n.toNat + (i + n.toNat)) = false :=
      BitVec.getLsbD_of_ge _ _ (by omega)
    simp [hmod, hhigh, hover]
  · have hmod : (i + n.toNat) % 32 = i + n.toNat - 32 := by omega
    have hsame : 32 - n.toNat + (i + n.toNat - 32) = i := by omega
    have hlow : i + n.toNat - 32 < n.toNat := by omega
    simp [hmod, hsame, hlow]

theorem rotateLeft_injective {n : UInt32} (h0 : 0 < n.toNat) (h1 : n.toNat < 32) {x y : UInt32}
    (h : rotateLeft x n = rotateLeft y n) : x = y := by
  apply UInt32.toBitVec_inj.mp
  apply BitVec.eq_of_getLsbD_eq
  intro i hi
  rw [← getLsbD_rotateLeft h0 h1 x hi, ← getLsbD_rotateLeft h0 h1 y hi, h]

/-! ## Blocks and states -/

/-- Bits that are put above those of a word add up with it. -/
theorem toNat_or_shiftLeft {low high k : UInt32} (hk : k.toNat < 32)
    (hlow : low.toNat < 2 ^ k.toNat) (hhigh : high.toNat * 2 ^ k.toNat < 2 ^ 32) :
    (low ||| high <<< k).toNat = low.toNat + high.toNat * 2 ^ k.toNat := by
  rw [UInt32.toNat_or, UInt32.toNat_shiftLeft, Nat.mod_eq_of_lt hk, Nat.shiftLeft_eq,
    Nat.mod_eq_of_lt hhigh, Nat.or_comm, ← Nat.shiftLeft_eq,
    ← Nat.shiftLeft_add_eq_or_of_lt hlow, Nat.shiftLeft_eq, Nat.add_comm]

theorem toNat_block (a b c d : UInt8) :
    (block a b c d).toNat = a.toNat + b.toNat * 2 ^ 8 + c.toNat * 2 ^ 16 + d.toNat * 2 ^ 24 := by
  have ha := a.toNat_lt
  have hb := b.toNat_lt
  have hc := c.toNat_lt
  have hd := d.toNat_lt
  have hab : (a.toUInt32 ||| b.toUInt32 <<< 8).toNat = a.toNat + b.toNat * 2 ^ 8 :=
    toNat_or_shiftLeft (by decide) (by simpa using ha) (by simp; omega)
  have habc : (a.toUInt32 ||| b.toUInt32 <<< 8 ||| c.toUInt32 <<< 16).toNat =
      a.toNat + b.toNat * 2 ^ 8 + c.toNat * 2 ^ 16 := by
    rw [toNat_or_shiftLeft (by decide) (by rw [hab]; simp; omega) (by simp; omega), hab]
    simp
  rw [block, toNat_or_shiftLeft (by decide) (by rw [habc]; simp; omega) (by simp; omega), habc]
  simp

/-- A block holds its bytes. -/
theorem block_injective {a b c d a' b' c' d' : UInt8}
    (h : block a b c d = block a' b' c' d') : a = a' ∧ b = b' ∧ c = c' ∧ d = d' := by
  have hnat := congrArg UInt32.toNat h
  rw [toNat_block, toNat_block] at hnat
  have ha := a.toNat_lt
  have hb := b.toNat_lt
  have hc := c.toNat_lt
  have ha' := a'.toNat_lt
  have hb' := b'.toNat_lt
  have hc' := c'.toNat_lt
  simp only [← UInt8.toNat_inj]
  omega

theorem mixBlock_injective {k l : UInt32} (h : mixBlock k = mixBlock l) : k = l := by
  have hturned : rotateLeft (k * 0xcc9e2d51) 15 = rotateLeft (l * 0xcc9e2d51) 15 :=
    mul_injective (d := 0x56ed309b) (by decide) h
  exact mul_injective (d := 0xdee13bb1) (by decide)
    (rotateLeft_injective (by decide) (by decide) hturned)

/-- The step between blocks loses nothing of what is combined before it. -/
theorem xor_mixBlock_of_mixState {h g k l : UInt32} (heq : mixState h k = mixState g l) :
    h ^^^ mixBlock k = g ^^^ mixBlock l := by
  have htimes : rotateLeft (h ^^^ mixBlock k) 13 * 5 = rotateLeft (g ^^^ mixBlock l) 13 * 5 :=
    (UInt32.add_left_inj _).mp heq
  exact rotateLeft_injective (by decide) (by decide)
    (mul_injective (d := 0xcccccccd) (by decide) htimes)

theorem finish_injective {h g length : UInt32} (heq : finish h length = finish g length) :
    h = g := by
  have hsecond := mul_injective (d := 0x7ed1b41d) (by decide) (xorShift_injective (by decide) heq)
  have hfirst :=
    mul_injective (d := 0xa5cb9243) (by decide) (xorShift_injective (by decide) hsecond)
  exact (UInt32.xor_left_inj _).mp (xorShift_injective (by decide) hfirst)

/-! ## Runs of bytes -/

section

-- the unifier would otherwise compare states by computing with their words
attribute [local irreducible] mixState

theorem absorb_block (h : UInt32) (a b c d : UInt8) (bytes : List UInt8) :
    absorb h (a :: b :: c :: d :: bytes) = absorb (mixState h (block a b c d)) bytes := rfl

theorem absorb_three (h : UInt32) (a b c : UInt8) :
    absorb h [a, b, c] = h ^^^ mixBlock (block a b c 0) := rfl

theorem absorb_two (h : UInt32) (a b : UInt8) :
    absorb h [a, b] = h ^^^ mixBlock (block a b 0 0) := rfl

theorem absorb_one (h : UInt32) (a : UInt8) : absorb h [a] = h ^^^ mixBlock (block a 0 0 0) := rfl

/-- The same bytes leave different states behind different states. -/
theorem absorb_injective {h g : UInt32} (bytes : List UInt8)
    (heq : absorb h bytes = absorb g bytes) : h = g := by
  induction h, bytes using absorb.induct generalizing g with
  | case1 h a b c d bytes ih =>
    rw [absorb_block, absorb_block] at heq
    exact (UInt32.xor_left_inj _).mp (xor_mixBlock_of_mixState (ih heq))
  | case2 h a b c =>
    rw [absorb_three, absorb_three] at heq
    exact (UInt32.xor_left_inj _).mp heq
  | case3 h a b =>
    rw [absorb_two, absorb_two] at heq
    exact (UInt32.xor_left_inj _).mp heq
  | case4 h a =>
    rw [absorb_one, absorb_one] at heq
    exact (UInt32.xor_left_inj _).mp heq
  | case5 h => exact heq

/-- Bytes that are the same outside one block, and leave the same state behind the same state, are
the same. -/
theorem eq_of_absorb_eq {a b : List UInt8} {i : Nat} {h : UInt32} (hlength : a.length = b.length)
    (helse : ∀ j, j / 4 ≠ i → a[j]? = b[j]?) (heq : absorb h a = absorb h b) : a = b := by
  induction h, a using absorb.induct generalizing b i with
  | case1 h a₀ a₁ a₂ a₃ a ih =>
    match b, hlength with
    | b₀ :: b₁ :: b₂ :: b₃ :: b, hlength =>
      rw [absorb_block, absorb_block] at heq
      cases i with
      | zero =>
        obtain rfl : a = b := List.ext_getElem? fun j => helse (j + 4) (by omega)
        have hmixed := xor_mixBlock_of_mixState (absorb_injective a heq)
        obtain ⟨rfl, rfl, rfl, rfl⟩ :=
          block_injective (mixBlock_injective ((UInt32.xor_right_inj _).mp hmixed))
        rfl
      | succ i =>
        obtain rfl : a₀ = b₀ := Option.some.inj (helse 0 (by omega))
        obtain rfl : a₁ = b₁ := Option.some.inj (helse 1 (by omega))
        obtain rfl : a₂ = b₂ := Option.some.inj (helse 2 (by omega))
        obtain rfl : a₃ = b₃ := Option.some.inj (helse 3 (by omega))
        have hrest : a = b := ih (i := i) (Nat.add_right_cancel (m := 4) hlength)
          (fun j hj => helse (j + 4) (by omega)) heq
        rw [hrest]
  | case2 h a₀ a₁ a₂ =>
    match b, hlength with
    | [b₀, b₁, b₂], _ =>
      rw [absorb_three, absorb_three] at heq
      obtain ⟨rfl, rfl, rfl, _⟩ :=
        block_injective (mixBlock_injective ((UInt32.xor_right_inj _).mp heq))
      rfl
  | case3 h a₀ a₁ =>
    match b, hlength with
    | [b₀, b₁], _ =>
      rw [absorb_two, absorb_two] at heq
      obtain ⟨rfl, rfl, _⟩ :=
        block_injective (mixBlock_injective ((UInt32.xor_right_inj _).mp heq))
      rfl
  | case4 h a₀ =>
    match b, hlength with
    | [b₀], _ =>
      rw [absorb_one, absorb_one] at heq
      obtain ⟨rfl, _⟩ :=
        block_injective (mixBlock_injective ((UInt32.xor_right_inj _).mp heq))
      rfl
  | case5 h => exact (List.length_eq_zero_iff.mp hlength.symm).symm

end

/-! ## Hashes -/

/-- Whether runs of bytes have one length and differ, but in one block of four bytes only; at the
end the block may be incomplete. -/
def DifferInBlock (a b : List UInt8) : Prop :=
  a.length = b.length ∧ a ≠ b ∧ ∃ i, ∀ j, j / 4 ≠ i → a[j]? = b[j]?

theorem hash_bounds (bytes : List UInt8) : -2 ^ 31 ≤ hash bytes ∧ hash bytes < 2 ^ 31 :=
  ⟨Int32.le_toInt _, Int32.toInt_lt _⟩

/-- Runs of bytes that differ in one block have different hashes. -/
theorem hash_ne {a b : List UInt8} (h : DifferInBlock a b) : hash a ≠ hash b := by
  obtain ⟨hlength, hne, i, helse⟩ := h
  intro heq
  have hword : hashWord a = hashWord b :=
    congrArg Int32.toUInt32 (Int32.toInt_inj.mp heq)
  rw [hashWord, hashWord, hlength] at hword
  exact hne (eq_of_absorb_eq hlength helse (finish_injective hword))

/-- Integers have the same four bytes just if they agree in their lowest 32 bits. -/
theorem intBytes_eq_iff {m n : Int} : intBytes m = intBytes n ↔ m ≡ n [ZMOD 2 ^ 32] := by
  simp only [intBytes, List.cons.injEq, and_true, ← UInt8.toNat_inj, UInt8.toNat_ofNat', Int.ModEq]
  omega

theorem hashInt_eq_iff {m n : Int} : hashInt m = hashInt n ↔ m ≡ n [ZMOD 2 ^ 32] := by
  rw [← intBytes_eq_iff]
  refine ⟨fun heq => ?_, fun h => congrArg hash h⟩
  by_contra hne
  have hdiffer : DifferInBlock (intBytes m) (intBytes n) := by
    refine ⟨rfl, hne, 0, fun j hj => ?_⟩
    have hend : 4 ≤ j := Nat.le_of_not_lt fun hlt => hj (Nat.div_eq_of_lt hlt)
    rw [List.getElem?_eq_none hend, List.getElem?_eq_none hend]
  exact hash_ne hdiffer heq

theorem hashInt_ne {m n : Int} (hm : 0 ≤ m ∧ m < 2 ^ 32) (hn : 0 ≤ n ∧ n < 2 ^ 32)
    (hne : m ≠ n) : hashInt m ≠ hashInt n := by
  intro heq
  have hlow : m % 2 ^ 32 = n % 2 ^ 32 := hashInt_eq_iff.mp heq
  omega

/-- The hash tells bytes apart that differ in one block only, which may be the incomplete one at the
end. It takes integers for each other just if they agree in their lowest 32 bits, so that no two
signed integers of 32 bits have the same hash. -/
theorem hash_separates :
    (∀ a b, DifferInBlock a b → hash a ≠ hash b) ∧
      (∀ m n, hashInt m = hashInt n ↔ m ≡ n [ZMOD 2 ^ 32]) ∧
        Set.InjOn hashInt (Set.Ico (-2 ^ 31) (2 ^ 31)) := by
  refine ⟨fun a b => hash_ne, fun m n => hashInt_eq_iff, fun m hm n hn heq => ?_⟩
  have hlow : m % 2 ^ 32 = n % 2 ^ 32 := hashInt_eq_iff.mp heq
  rw [Set.mem_Ico] at hm hn
  omega

/-- Two of the three bytes behind a whole block differ; the least and the greatest integer do not
fall together. -/
theorem hash_separates_end :
    DifferInBlock [1, 2, 3, 4, 5, 6, 7] [1, 2, 3, 4, 0, 6, 255] ∧
      hash [1, 2, 3, 4, 5, 6, 7] ≠ hash [1, 2, 3, 4, 0, 6, 255] ∧
        hashInt (-2 ^ 31) ≠ hashInt (2 ^ 31 - 1) := by
  have hdiffer : DifferInBlock [1, 2, 3, 4, 5, 6, 7] [1, 2, 3, 4, 0, 6, 255] := by
    refine ⟨rfl, by decide, 1, fun j hj => ?_⟩
    match j with
    | 0 | 1 | 2 | 3 => rfl
    | 4 | 5 | 6 => exact absurd rfl hj
    | j + 7 => rfl
  have hleast : (-2 ^ 31 : Int) ∈ Set.Ico (-2 ^ 31 : Int) (2 ^ 31) := ⟨by decide, by decide⟩
  have hgreatest : (2 ^ 31 - 1 : Int) ∈ Set.Ico (-2 ^ 31 : Int) (2 ^ 31) := ⟨by decide, by decide⟩
  exact ⟨hdiffer, hash_separates.1 _ _ hdiffer,
    (hash_separates.2.2.ne_iff hleast hgreatest).mpr (by decide)⟩

end WarehouseRows.Murmur3
