import WarehouseRows.Error.Failure

/-!
# The hash in signed numbers

The hash of bytes that lie somewhere in a buffer, as it is computed with numbers instead of
words. An operator on bits takes its operands modulo 2^32 and gives a signed number; only the
shift to the right, which fills up with zeros, gives an unsigned one. Blocks are read as
unsigned numbers too, and a sum leaves the range until it is wrapped. Reading outside of the
view of the buffer fails.

## Main definitions

* `Signed.wrap`, `Signed.bits`: a number brought into the signed range, and into the unsigned one.
* `Signed.View`: a part of a buffer.
* `Signed.View.hash`: the hash of the bytes in a view.
-/

namespace WarehouseRows.Murmur3.Signed

/-! ## Operators on bits -/

/-- The number of the signed range that has the same lowest 32 bits. -/
def wrap (n : Int) : Int :=
  n.bmod 4294967296

/-- The number of the unsigned range that has the same lowest 32 bits. -/
def bits (n : Int) : Nat :=
  (n % 4294967296).toNat

def xor (a b : Int) : Int :=
  wrap (bits a ^^^ bits b : Nat)

def or (a b : Int) : Int :=
  wrap (bits a ||| bits b : Nat)

def shiftLeft (a : Int) (places : Nat) : Int :=
  wrap (bits a <<< places : Nat)

/-- The shift that fills up with zeros; the result is unsigned. -/
def shiftRight (a : Int) (places : Nat) : Int :=
  (bits a >>> places : Nat)

/-- The lowest 32 bits of a product. -/
def mul (a b : Int) : Int :=
  wrap (bits a * bits b : Nat)

/-! ## Mixing -/

/-- A block, prepared for mixing into the state. -/
def mixBlock (k : Int) : Int :=
  let k := mul k 0xcc9e2d51
  let k := or (shiftLeft k 15) (shiftRight k 17)
  mul k 0x1b873593

/-- The state after a prepared block. The sum may leave the range. -/
def mixState (h k : Int) : Int :=
  let h := xor h k
  let h := or (shiftLeft h 13) (shiftRight h 19)
  wrap (mul h 5 + 0xe6546b64)

/-- The final avalanche, after the length is mixed in. -/
def finish (h : Int) (length : Nat) : Int :=
  let h := xor h length
  let h := xor h (shiftRight h 16)
  let h := mul h 0x85ebca6b
  let h := xor h (shiftRight h 13)
  let h := mul h 0xc2b2ae35
  let h := xor h (shiftRight h 16)
  wrap h

/-! ## Views -/

/-- A part of a buffer. -/
structure View where
  buffer : List UInt8
  /-- Where the part starts. -/
  offset : Nat
  length : Nat
  /-- The part lies in the buffer. -/
  fits : offset + length ≤ buffer.length

namespace View

/-- The bytes in a view. -/
def bytes (v : View) : List UInt8 :=
  (v.buffer.drop v.offset).take v.length

/-- The byte at a place of a view. -/
def byte (v : View) (i : Nat) : Except Failure Int :=
  if h : i < v.length then
    have hplace : v.offset + i < v.buffer.length :=
      Nat.lt_of_lt_of_le (Nat.add_lt_add_left h v.offset) v.fits
    .ok v.buffer[v.offset + i].toNat
  else .error (.range "Offset is outside the bounds of the DataView")

/-- The unsigned number that starts at a place of a view, the first byte lowest. -/
def word (v : View) (i : Nat) : Except Failure Int := do
  let a ← v.byte i
  let b ← v.byte (i + 1)
  let c ← v.byte (i + 2)
  let d ← v.byte (i + 3)
  pure (a + b * 256 + c * 65536 + d * 16777216)

/-! ## Hashing -/

/-- The state after the whole blocks of a view. -/
def absorbBlocks (v : View) : Except Failure Int :=
  (List.range (v.length / 4)).foldlM
    (fun h i => (v.word (i * 4)).map fun k => mixState h (mixBlock k)) 0

/-- The state after the one to three bytes behind the whole blocks, the last byte first. -/
def absorbTail (v : View) (h : Int) : Except Failure Int := do
  let start := v.length / 4 * 4
  let left := v.length % 4
  let k := 0
  let k ← if 3 ≤ left then (v.byte (start + 2)).map fun b => xor k (shiftLeft b 16) else pure k
  let k ← if 2 ≤ left then (v.byte (start + 1)).map fun b => xor k (shiftLeft b 8) else pure k
  if 1 ≤ left then (v.byte start).map fun b => xor h (mixBlock (xor k b)) else pure h

/-- The hash of the bytes in a view. -/
def hash (v : View) : Except Failure Int := do
  let h ← v.absorbBlocks
  let h ← v.absorbTail h
  pure (finish h v.length)

end View

end WarehouseRows.Murmur3.Signed
