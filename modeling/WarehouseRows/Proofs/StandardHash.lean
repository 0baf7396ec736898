import Mathlib
import WarehouseRows.Proofs.HashedBytes

/-!
# The hash in modular arithmetic

MurmurHash3 for 32 bits, as it is published: natural numbers are multiplied, added and rotated modulo
2^32, blocks are looked up by their index, and what is left behind the last one is prepared like a
block, but not stepped over. The hash in words, which takes bytes off the front of a list, goes
through the same numbers.

## Main definitions

* `Standard.hash`: the published hash.
-/

namespace WarehouseRows.Murmur3

/-! ## The published hash -/

namespace Standard

/-- A number below 2^32, with its bits turned left. -/
def rotate (x places : Nat) : Nat :=
  x * 2 ^ places % 2 ^ 32 + x / 2 ^ (32 - places)

/-- A block, before it is combined with the state. -/
def scramble (k : Nat) : Nat :=
  rotate (k * 0xcc9e2d51 % 2 ^ 32) 15 * 0x1b873593 % 2 ^ 32

/-- The state behind a whole block. -/
def step (h k : Nat) : Nat :=
  (rotate (h ^^^ scramble k) 13 * 5 + 0xe6546b64) % 2 ^ 32

/-- The last step, in which every bit of the state comes to bear on all others. -/
def avalanche (h : Nat) : Nat :=
  let h := (h ^^^ (h / 2 ^ 16)) * 0x85ebca6b % 2 ^ 32
  let h := (h ^^^ (h / 2 ^ 13)) * 0xc2b2ae35 % 2 ^ 32
  h ^^^ (h / 2 ^ 16)

/-- The number that bytes stand for, the first one lowest. -/
def littleEndian (bytes : List UInt8) : Nat :=
  bytes.foldr (fun b n => b.toNat + 256 * n) 0

/-- The block with an index. -/
def block (bytes : List UInt8) (i : Nat) : Nat :=
  littleEndian ((bytes.drop (4 * i)).take 4)

/-- The bytes behind the last whole block. -/
def tail (bytes : List UInt8) : List UInt8 :=
  bytes.drop (4 * (bytes.length / 4))

/-- The state after the bytes that are left. -/
def stepTail (h : Nat) : List UInt8 → Nat
  | [] => h
  | bytes => h ^^^ scramble (littleEndian bytes)

/-- The state after all bytes. -/
def absorb (seed : Nat) (bytes : List UInt8) : Nat :=
  stepTail ((List.range (bytes.length / 4)).foldl (fun h i => step h (block bytes i)) seed)
    (tail bytes)

/-- The published hash of bytes, for a seed below 2^32. -/
def hash (seed : Nat) (bytes : List UInt8) : Nat :=
  avalanche (absorb seed bytes ^^^ (bytes.length % 2 ^ 32))

theorem littleEndian_cons (b : UInt8) (bytes : List UInt8) :
    littleEndian (b :: bytes) = b.toNat + 256 * littleEndian bytes := rfl

theorem littleEndian_lt {bytes : List UInt8} {n : Nat} (h : bytes.length ≤ n) :
    littleEndian bytes < 256 ^ n := by
  induction bytes generalizing n with
  | nil => exact Nat.pow_pos (by decide)
  | cons b bytes ih =>
    obtain ⟨n, rfl⟩ := Nat.exists_eq_add_one_of_ne_zero (Nat.ne_zero_of_lt h)
    have hrest := ih (Nat.le_of_succ_le_succ h)
    have hbyte := b.toNat_lt
    rw [littleEndian_cons, Nat.pow_succ]
    omega

/-- Turning is done by two shifts. -/
theorem or_shifts {x places : Nat} (hx : x < 2 ^ 32) (hplaces : places ≤ 32) :
    (x <<< places % 2 ^ 32) ||| (x >>> (32 - places)) = rotate x places := by
  have hlow : x / 2 ^ (32 - places) < 2 ^ places := by
    rw [Nat.div_lt_iff_lt_mul (by positivity), ← Nat.pow_add, Nat.add_sub_of_le hplaces]
    exact hx
  have hhigh : x * 2 ^ places % 2 ^ 32 = (x % 2 ^ (32 - places)) <<< places := by
    rw [Nat.shiftLeft_eq, ← Nat.mul_mod_mul_right, ← Nat.pow_add, Nat.sub_add_cancel hplaces]
  rw [Nat.shiftLeft_eq, Nat.shiftRight_eq_div_pow, rotate, hhigh,
    Nat.shiftLeft_add_eq_or_of_lt hlow]

theorem stepTail_of_ne_nil (h : Nat) {bytes : List UInt8} (hne : bytes ≠ []) :
    stepTail h bytes = h ^^^ scramble (littleEndian bytes) := by
  cases bytes with
  | nil => exact absurd rfl hne
  | cons b bytes => rfl

theorem tail_cons (a b c d : UInt8) (bytes : List UInt8) :
    tail (a :: b :: c :: d :: bytes) = tail bytes := by
  have hblocks : 4 * ((bytes.length + 4) / 4) = 4 * (bytes.length / 4) + 4 := by omega
  exact congrArg (List.drop · (a :: b :: c :: d :: bytes)) hblocks

/-- Fewer bytes than a block are all left over. -/
theorem absorb_of_lt (h : Nat) {bytes : List UInt8} (hlt : bytes.length < 4) :
    absorb h bytes = stepTail h bytes := by
  rw [absorb, tail, Nat.div_eq_of_lt hlt]
  rfl

/-- The first block is stepped over, and the others are absorbed behind it. -/
theorem absorb_cons (h : Nat) (a b c d : UInt8) (bytes : List UInt8) :
    absorb h (a :: b :: c :: d :: bytes) = absorb (step h (littleEndian [a, b, c, d])) bytes := by
  have hblocks : (a :: b :: c :: d :: bytes).length / 4 = bytes.length / 4 + 1 :=
    Nat.add_div_right bytes.length (Nat.succ_pos 3)
  rw [absorb, absorb, hblocks, tail_cons, List.range_succ_eq_map, List.foldl_cons, List.foldl_map]
  rfl

end Standard

/-! ## Words are numbers modulo 2^32 -/

theorem toNat_rotateLeft (x : UInt32) {n : UInt32} (h0 : 0 < n.toNat) (h1 : n.toNat < 32) :
    (rotateLeft x n).toNat = Standard.rotate x.toNat n.toNat := by
  have hback : (32 - n).toNat = 32 - n.toNat := UInt32.toNat_sub_of_le 32 n (Nat.le_of_lt h1)
  have hlt : 32 - n.toNat < 32 := by omega
  rw [rotateLeft, UInt32.toNat_or, UInt32.toNat_shiftLeft, UInt32.toNat_shiftRight, hback,
    Nat.mod_eq_of_lt h1, Nat.mod_eq_of_lt hlt]
  exact Standard.or_shifts x.toNat_lt (Nat.le_of_lt h1)

theorem toNat_mixBlock (k : UInt32) : (mixBlock k).toNat = Standard.scramble k.toNat := by
  rw [mixBlock, UInt32.toNat_mul, toNat_rotateLeft _ (by decide) (by decide), UInt32.toNat_mul]
  rfl

theorem toNat_mixState (h k : UInt32) :
    (mixState h k).toNat = Standard.step h.toNat k.toNat := by
  rw [mixState, UInt32.toNat_add, UInt32.toNat_mul, toNat_rotateLeft _ (by decide) (by decide),
    UInt32.toNat_xor, toNat_mixBlock, UInt32.toNat_ofNat, UInt32.toNat_ofNat, Nat.mod_add_mod]
  rfl

theorem toNat_finish (h length : UInt32) :
    (finish h length).toNat = Standard.avalanche (h.toNat ^^^ length.toNat) := by
  simp only [finish, Standard.avalanche, UInt32.toNat_xor, UInt32.toNat_mul,
    UInt32.toNat_shiftRight, Nat.shiftRight_eq_div_pow]
  rfl

/-- A block is the number that its bytes stand for. -/
theorem toNat_block_eq (a b c d : UInt8) :
    (block a b c d).toNat = Standard.littleEndian [a, b, c, d] := by
  rw [toNat_block]
  simp only [Standard.littleEndian, List.foldr_cons, List.foldr_nil]
  omega

/-- A block that is filled up with zeros is mixed in as the bytes that are left. -/
theorem toNat_stepTail (h : UInt32) {a b c d : UInt8} {bytes : List UInt8} (hne : bytes ≠ [])
    (hzeros : Standard.littleEndian [a, b, c, d] = Standard.littleEndian bytes) :
    (h ^^^ mixBlock (block a b c d)).toNat = Standard.stepTail h.toNat bytes := by
  rw [UInt32.toNat_xor, toNat_mixBlock, toNat_block_eq, hzeros, Standard.stepTail_of_ne_nil _ hne]

/-- The state in words goes through the states of the published hash. -/
theorem toNat_absorb (h : UInt32) (bytes : List UInt8) :
    (absorb h bytes).toNat = Standard.absorb h.toNat bytes := by
  induction h, bytes using absorb.induct with
  | case1 h a b c d bytes ih =>
    -- taking a block off the front moves all later blocks down by one index
    rw [absorb_block, ih, Standard.absorb_cons, toNat_mixState, toNat_block_eq]
  | case2 h a b c =>
    rw [absorb_three, Standard.absorb_of_lt _ (by simp)]
    exact toNat_stepTail h (List.cons_ne_nil _ _) rfl
  | case3 h a b =>
    rw [absorb_two, Standard.absorb_of_lt _ (by simp)]
    exact toNat_stepTail h (List.cons_ne_nil _ _) rfl
  | case4 h a =>
    rw [absorb_one, Standard.absorb_of_lt _ (by simp)]
    exact toNat_stepTail h (List.cons_ne_nil _ _) rfl
  | case5 h => rfl

/-- The hash of bytes is the published one with the seed zero, read as a signed number. -/
theorem hash_eq_bmod (bytes : List UInt8) :
    hash bytes = (Standard.hash 0 bytes : Int).bmod (2 ^ 32) := by
  have hword : (hashWord bytes).toNat = Standard.hash 0 bytes := by
    rw [hashWord, toNat_finish, toNat_absorb, UInt32.toNat_ofNat']
    rfl
  rw [← hword]
  exact BitVec.toInt_eq_toNat_bmod (hashWord bytes).toBitVec

example : Standard.hash 0 [104, 101, 108, 108, 111] = 613153351 := by decide

end WarehouseRows.Murmur3
