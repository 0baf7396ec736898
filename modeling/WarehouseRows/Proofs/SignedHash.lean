import Mathlib
import WarehouseRows.Fingerprint.SignedHash
import WarehouseRows.Proofs.Outcome
import WarehouseRows.Proofs.StandardHash

/-!
# The hash in signed numbers is the published one

Every operator on bits, whatever the sign of its result, does to the lowest 32 bits of its operands
what the arithmetic modulo 2^32 does. So the lowest 32 bits of the state go through the states of the
published hash, from block to block and over the bytes that are left, and only the final avalanche
settles the sign. No step reads outside of the view, wherever in its buffer the view lies.

## Main definitions

* `Standard.bytesOf`: the four bytes of an integer.
-/

namespace WarehouseRows.Murmur3

/-! ## Operators on the bits of signed numbers -/

namespace Signed

theorem bits_lt (n : Int) : bits n < 2 ^ 32 := by
  have := Int.emod_lt_of_pos n (show (0 : Int) < 2 ^ 32 by decide)
  rw [bits]
  omega

@[simp] theorem bits_wrap (n : Int) : bits (wrap n) = bits n :=
  congrArg Int.toNat Int.bmod_emod

@[simp] theorem bits_natCast (n : Nat) : bits n = n % 2 ^ 32 := by
  rw [bits]
  omega

theorem bits_natCast_of_lt {n : Nat} (h : n < 2 ^ 32) : bits n = n := by
  rw [bits_natCast, Nat.mod_eq_of_lt h]

theorem wrap_eq_bmod_bits (n : Int) : wrap n = (bits n : Int).bmod (2 ^ 32) := by
  have hbits : (bits n : Int) = n % (2 ^ 32 : Nat) :=
    Int.toNat_of_nonneg (Int.emod_nonneg n (by decide))
  rw [hbits, Int.emod_bmod]
  rfl

@[simp] theorem bits_xor (a b : Int) : bits (xor a b) = bits a ^^^ bits b := by
  rw [xor, bits_wrap, bits_natCast_of_lt (Nat.xor_lt_two_pow (bits_lt a) (bits_lt b))]

@[simp] theorem bits_or (a b : Int) : bits (or a b) = bits a ||| bits b := by
  rw [or, bits_wrap, bits_natCast_of_lt (Nat.or_lt_two_pow (bits_lt a) (bits_lt b))]

@[simp] theorem bits_shiftLeft (a : Int) (places : Nat) :
    bits (shiftLeft a places) = bits a <<< places % 2 ^ 32 := by
  rw [shiftLeft, bits_wrap, bits_natCast]

@[simp] theorem bits_shiftRight (a : Int) (places : Nat) :
    bits (shiftRight a places) = bits a >>> places := by
  rw [shiftRight, bits_natCast_of_lt (Nat.lt_of_le_of_lt (Nat.shiftRight_le _ _) (bits_lt a))]

@[simp] theorem bits_mul (a b : Int) : bits (mul a b) = bits a * bits b % 2 ^ 32 := by
  rw [mul, bits_wrap, bits_natCast]

theorem bits_add (a b : Int) : bits (a + b) = (bits a + bits b) % 2 ^ 32 := by
  simp only [bits]
  omega

/-- Two shifts turn the bits. -/
theorem bits_turned (a : Int) {places : Nat} (h : places ≤ 32) :
    bits (or (shiftLeft a places) (shiftRight a (32 - places))) =
      Standard.rotate (bits a) places := by
  rw [bits_or, bits_shiftLeft, bits_shiftRight, Standard.or_shifts (bits_lt a) h]

/-! ## Mixing -/

theorem bits_mixBlock (k : Int) : bits (mixBlock k) = Standard.scramble (bits k) := by
  rw [mixBlock, bits_mul, bits_turned _ (by decide : 15 ≤ 32), bits_mul]
  rfl

theorem bits_mixState (h k : Int) :
    bits (mixState h (mixBlock k)) = Standard.step (bits h) (bits k) := by
  rw [mixState, bits_wrap, bits_add, bits_mul, bits_turned _ (by decide : 13 ≤ 32), bits_xor,
    bits_mixBlock, Standard.step]
  exact Nat.mod_add_mod _ _ _

/-- The avalanche ends in the signed range. -/
theorem finish_eq_bmod (h : Int) (length : Nat) :
    finish h length = (Standard.avalanche (bits h ^^^ (length % 2 ^ 32)) : Int).bmod (2 ^ 32) := by
  rw [finish, wrap_eq_bmod_bits]
  simp only [bits_xor, bits_mul, bits_shiftRight, bits_natCast, Nat.shiftRight_eq_div_pow]
  rfl

/-! ## Bytes that are left over -/

/-- Numbers without common bits are combined as they are added. -/
theorem xor_eq_add {low places : Nat} (high : Nat) (h : low < 2 ^ places) :
    high * 2 ^ places ^^^ low = high * 2 ^ places + low := by
  rw [Nat.mul_comm]
  apply Nat.eq_of_testBit_eq
  intro i
  rw [Nat.testBit_xor, Nat.testBit_two_pow_mul, Nat.testBit_two_pow_mul_add high h]
  split
  · rename_i hi
    simp [Nat.not_le.mpr hi]
  · rename_i hi
    have hlow : low.testBit i = false :=
      Nat.testBit_lt_two_pow (Nat.lt_of_lt_of_le h (Nat.pow_le_pow_right (by decide) (by omega)))
    simp [Nat.not_lt.mp hi, hlow]

theorem bits_shiftLeft_byte (a : UInt8) {places : Nat} (h : places ≤ 24) :
    bits (shiftLeft a.toNat places) = a.toNat * 2 ^ places := by
  have hlt : a.toNat * 2 ^ places < 2 ^ 32 :=
    calc
      a.toNat * 2 ^ places < 2 ^ 8 * 2 ^ places :=
        Nat.mul_lt_mul_of_pos_right a.toNat_lt (Nat.two_pow_pos places)
      _ = 2 ^ (8 + places) := (Nat.pow_add 2 8 places).symm
      _ ≤ 2 ^ 32 := Nat.pow_le_pow_right (by decide) (by omega)
  rw [bits_shiftLeft, bits_natCast_of_lt (by have := a.toNat_lt; omega), Nat.shiftLeft_eq,
    Nat.mod_eq_of_lt hlt]

theorem bits_byte (a : UInt8) : bits a.toNat = a.toNat * 2 ^ 0 := by
  have := a.toNat_lt
  rw [bits_natCast_of_lt (by omega), Nat.pow_zero, Nat.mul_one]

theorem bits_zero (places : Nat) : bits 0 = Standard.littleEndian [] * 2 ^ places :=
  (Nat.zero_mul _).symm

/-- A byte goes below those that were read before it. -/
theorem bits_xor_byte {k x : Int} {a : UInt8} {above : List UInt8} {places : Nat}
    (hk : bits k = Standard.littleEndian above * 2 ^ (8 + places))
    (hx : bits x = a.toNat * 2 ^ places) :
    bits (xor k x) = Standard.littleEndian (a :: above) * 2 ^ places := by
  have hlow : a.toNat * 2 ^ places < 2 ^ (8 + places) := by
    rw [Nat.pow_add]
    exact Nat.mul_lt_mul_of_pos_right a.toNat_lt (Nat.two_pow_pos places)
  rw [bits_xor, hk, hx, xor_eq_add _ hlow, Standard.littleEndian_cons]
  ring

theorem bits_one (a : UInt8) : bits (xor 0 a.toNat) = Standard.littleEndian [a] := by
  have h0 := bits_xor_byte (bits_zero _) (bits_byte a)
  rwa [Nat.pow_zero, Nat.mul_one] at h0

theorem bits_two (a b : UInt8) :
    bits (xor (xor 0 (shiftLeft b.toNat 8)) a.toNat) = Standard.littleEndian [a, b] := by
  have h1 := bits_xor_byte (bits_zero _) (bits_shiftLeft_byte b (by decide : 8 ≤ 24))
  have h0 := bits_xor_byte h1 (bits_byte a)
  rwa [Nat.pow_zero, Nat.mul_one] at h0

theorem bits_three (a b c : UInt8) :
    bits (xor (xor (xor 0 (shiftLeft c.toNat 16)) (shiftLeft b.toNat 8)) a.toNat) =
      Standard.littleEndian [a, b, c] := by
  have h2 := bits_xor_byte (bits_zero _) (bits_shiftLeft_byte c (by decide : 16 ≤ 24))
  have h1 := bits_xor_byte h2 (bits_shiftLeft_byte b (by decide : 8 ≤ 24))
  have h0 := bits_xor_byte h1 (bits_byte a)
  rwa [Nat.pow_zero, Nat.mul_one] at h0

/-- Bytes that are left are prepared like a block and mixed in. -/
theorem bits_stepTail (state : Int) {k : Int} {bytes : List UInt8} (hne : bytes ≠ [])
    (hk : bits k = Standard.littleEndian bytes) :
    bits (xor state (mixBlock k)) = Standard.stepTail (bits state) bytes := by
  rw [bits_xor, bits_mixBlock, hk, Standard.stepTail_of_ne_nil _ hne]

/-! ## Reading a view -/

namespace View

variable (v : View)

@[simp] theorem length_bytes : v.bytes.length = v.length := by
  have := v.fits
  simp [bytes]
  omega

/-- Inside of a view, the bytes are read that the view shows. -/
theorem byte_eq_ok {i : Nat} {b : UInt8} (h : v.bytes[i]? = some b) : v.byte i = .ok b.toNat := by
  obtain ⟨hlt, rfl⟩ := List.getElem?_eq_some_iff.mp h
  rw [byte, dif_pos (v.length_bytes ▸ hlt)]
  simp [bytes]

/-- The bytes from a place on are read one after another. -/
theorem byte_add_eq_ok {start i : Nat} {b : UInt8} {rest : List UInt8}
    (hrest : v.bytes.drop start = rest) (h : rest[i]? = some b) :
    v.byte (start + i) = .ok b.toNat := by
  refine v.byte_eq_ok ?_
  rw [← List.getElem?_drop, hrest, h]

theorem word_eq_ok {i : Nat} (h : i + 4 ≤ v.length) :
    v.word i = .ok (Standard.littleEndian ((v.bytes.drop i).take 4)) := by
  have hlength : (v.bytes.drop i).length = v.length - i - 4 + 4 := by
    rw [List.length_drop, length_bytes]
    omega
  match hrest : v.bytes.drop i, hlength with
  | a :: b :: c :: d :: rest, _ =>
    have h0 : v.byte i = .ok a.toNat := v.byte_add_eq_ok (i := 0) hrest rfl
    rw [word, h0, v.byte_add_eq_ok hrest (i := 1) rfl, v.byte_add_eq_ok hrest (i := 2) rfl,
      v.byte_add_eq_ok hrest (i := 3) rfl]
    refine congrArg Except.ok ?_
    simp [Standard.littleEndian]
    omega

/-- Reading a block and mixing it in is a step of the published hash. -/
theorem absorbBlocks_step {i : Nat} (h : i < v.length / 4) (state : Int) :
    ∃ next, ((v.word (i * 4)).map fun k => mixState state (mixBlock k)) = .ok next ∧
      bits next = Standard.step (bits state) (Standard.block v.bytes i) := by
  have hread := v.word_eq_ok (i := i * 4) (by omega)
  refine ⟨_, congrArg (Except.map _) hread, ?_⟩
  rw [bits_mixState, bits_natCast_of_lt (Standard.littleEndian_lt (List.length_take_le 4 _)),
    Nat.mul_comm]
  rfl

/-- Any blocks of the view are read one after another, and only the lowest 32 bits of the states are
kept track of: two states with the same bits may differ in the sign. -/
theorem foldlM_blocks {blocks : List Nat} (h : ∀ i ∈ blocks, i < v.length / 4) (state : Int) :
    ∃ last,
      blocks.foldlM (fun h i => (v.word (i * 4)).map fun k => mixState h (mixBlock k)) state =
        .ok last ∧
      bits last =
        blocks.foldl (fun h i => Standard.step h (Standard.block v.bytes i)) (bits state) := by
  induction blocks generalizing state with
  | nil => exact ⟨state, rfl, rfl⟩
  | cons i blocks ih =>
    obtain ⟨next, hnext, hbits⟩ := v.absorbBlocks_step (h i List.mem_cons_self) state
    obtain ⟨last, hlast, hend⟩ := ih (fun j hj => h j (List.mem_cons_of_mem i hj)) next
    refine ⟨last, ?_, ?_⟩
    · rw [List.foldlM_cons, hnext]
      exact hlast
    · rw [List.foldl_cons, ← hbits, hend]

theorem absorbBlocks_eq_ok :
    ∃ state, v.absorbBlocks = .ok state ∧
      bits state = (List.range (v.length / 4)).foldl
        (fun h i => Standard.step h (Standard.block v.bytes i)) 0 :=
  v.foldlM_blocks (fun _ hi => List.mem_range.mp hi) 0

/-- What is left behind the blocks is read and mixed in as in the published hash. -/
theorem absorbTail_eq_ok (state : Int) :
    ∃ last, v.absorbTail state = .ok last ∧
      bits last = Standard.stepTail (bits state) (Standard.tail v.bytes) := by
  have hdrop : v.bytes.drop (v.length / 4 * 4) = Standard.tail v.bytes := by
    rw [Standard.tail, length_bytes, Nat.mul_comm]
  have hlength : (Standard.tail v.bytes).length = v.length % 4 := by
    rw [← hdrop, List.length_drop, length_bytes]
    omega
  have hread {i : Nat} {b : UInt8} (h : (Standard.tail v.bytes)[i]? = some b) :
      v.byte (v.length / 4 * 4 + i) = .ok b.toNat := v.byte_add_eq_ok hdrop h
  unfold absorbTail
  -- the number of bytes that are left decides which of them are read
  simp only [← hlength]
  rcases htail : Standard.tail v.bytes with _ | ⟨a, _ | ⟨b, _ | ⟨c, _ | ⟨d, rest⟩⟩⟩⟩
  · exact ⟨state, rfl, rfl⟩
  · rw [htail] at hread
    have h0 : v.byte (v.length / 4 * 4) = .ok a.toNat := hread (i := 0) rfl
    refine ⟨_, ?_, bits_stepTail state (List.cons_ne_nil _ _) (bits_one a)⟩
    rw [h0]
    rfl
  · rw [htail] at hread
    have h0 : v.byte (v.length / 4 * 4) = .ok a.toNat := hread (i := 0) rfl
    have h1 : v.byte (v.length / 4 * 4 + 1) = .ok b.toNat := hread rfl
    refine ⟨_, ?_, bits_stepTail state (List.cons_ne_nil _ _) (bits_two a b)⟩
    rw [h0, h1]
    rfl
  · rw [htail] at hread
    have h0 : v.byte (v.length / 4 * 4) = .ok a.toNat := hread (i := 0) rfl
    have h1 : v.byte (v.length / 4 * 4 + 1) = .ok b.toNat := hread rfl
    have h2 : v.byte (v.length / 4 * 4 + 2) = .ok c.toNat := hread rfl
    refine ⟨_, ?_, bits_stepTail state (List.cons_ne_nil _ _) (bits_three a b c)⟩
    rw [h0, h1, h2]
    rfl
  · rw [htail] at hlength
    simp only [List.length_cons] at hlength
    omega

/-- The hash of a view is the published one of the bytes in it, as a signed number. -/
theorem hash_eq_ok : v.hash = .ok ((Standard.hash 0 v.bytes : Int).bmod (2 ^ 32)) := by
  obtain ⟨blocks, hblocks, hbits⟩ := v.absorbBlocks_eq_ok
  obtain ⟨last, hlast, hend⟩ := v.absorbTail_eq_ok blocks
  have habsorb : bits last = Standard.absorb 0 v.bytes := by
    rw [hend, hbits, Standard.absorb, length_bytes]
  rw [hash, hblocks, Outcome.ok_bind, hlast, Outcome.ok_bind, finish_eq_bmod, habsorb,
    Standard.hash, length_bytes]
  rfl

end View

end Signed

/-! ## The hash of a number -/

/-- The four bytes of a number, the lowest first. -/
def Standard.bytesOf (n : Int) : List UInt8 :=
  (List.range 4).map fun i => UInt8.ofInt (n / 256 ^ i)

theorem intBytes_eq (n : Int) : intBytes n = Standard.bytesOf n := by
  have hwords : intBytes n =
      (List.range 4).map fun i => UInt8.ofNat ((n % 4294967296).toNat / 256 ^ i) := by
    simp [intBytes, List.range_succ]
  rw [hwords, Standard.bytesOf]
  refine List.map_congr_left fun i hi => ?_
  have hi : i < 4 := List.mem_range.mp hi
  rw [UInt8.ofInt, ← UInt8.toNat_inj, UInt8.toNat_ofNat', UInt8.toNat_ofNat']
  interval_cases i <;> omega

/-- The hash of the bytes in a view, as it is computed with signed numbers, and the hash in words
are the published one with the seed zero, read as a signed number; the hash of an integer is that of
its four bytes, the lowest first. -/
theorem hash_eq_standard :
    (∀ v : Signed.View, v.hash = .ok ((Standard.hash 0 v.bytes : Int).bmod (2 ^ 32))) ∧
      (∀ bytes, hash bytes = (Standard.hash 0 bytes : Int).bmod (2 ^ 32)) ∧
        ∀ n, hashInt n = (Standard.hash 0 (Standard.bytesOf n) : Int).bmod (2 ^ 32) := by
  refine ⟨fun v => v.hash_eq_ok, hash_eq_bmod, fun n => ?_⟩
  rw [hashInt, hash_eq_bmod, intBytes_eq]

end WarehouseRows.Murmur3
