import WarehouseRows.Text.Utf8

/-!
# MurmurHash3

The 32-bit hash with seed zero. The bytes are read in little-endian blocks of four,
the one to three bytes left over form a last block, and the length is mixed in at
the end. The result is read as a signed integer.

## Main definitions

* `Murmur3.hash`: the hash of bytes.
* `Murmur3.hashText`: the hash of the UTF-8 form of a text.
* `Murmur3.hashInt`: the hash of the four little-endian bytes of an integer.
-/

namespace WarehouseRows.Murmur3

/-! ## Mixing -/

/-- The bits turned left by `n` places, for an `n` between 1 and 31. -/
def rotateLeft (x : UInt32) (n : UInt32) : UInt32 :=
  (x <<< n) ||| (x >>> (32 - n))

/-- A block, prepared for mixing into the state. -/
def mixBlock (k : UInt32) : UInt32 :=
  rotateLeft (k * 0xcc9e2d51) 15 * 0x1b873593

/-- The state after a whole block. -/
def mixState (h k : UInt32) : UInt32 :=
  rotateLeft (h ^^^ mixBlock k) 13 * 5 + 0xe6546b64

/-- The final avalanche, after the length is mixed in. -/
def finish (h length : UInt32) : UInt32 :=
  let h := h ^^^ length
  let h := (h ^^^ (h >>> 16)) * 0x85ebca6b
  let h := (h ^^^ (h >>> 13)) * 0xc2b2ae35
  h ^^^ (h >>> 16)

/-! ## Hashing -/

/-- A block of four bytes, the first one lowest. -/
def block (a b c d : UInt8) : UInt32 :=
  a.toUInt32 ||| (b.toUInt32 <<< 8) ||| (c.toUInt32 <<< 16) ||| (d.toUInt32 <<< 24)

/-- The state after all bytes; the last incomplete block is mixed in without the
step between blocks. -/
def absorb (h : UInt32) : List UInt8 → UInt32
  | a :: b :: c :: d :: rest => absorb (mixState h (block a b c d)) rest
  | [a, b, c] => h ^^^ mixBlock (block a b c 0)
  | [a, b] => h ^^^ mixBlock (block a b 0 0)
  | [a] => h ^^^ mixBlock (block a 0 0 0)
  | [] => h

/-- The hash of bytes as an unsigned word. -/
def hashWord (bytes : List UInt8) : UInt32 :=
  finish (absorb 0 bytes) (UInt32.ofNat bytes.length)

/-- The hash of bytes. -/
def hash (bytes : List UInt8) : Int :=
  (hashWord bytes).toInt32.toInt

/-- The hash of the UTF-8 form of a text. -/
def hashText (text : String) : Int :=
  hash (Utf8.encode text)

/-- The four bytes of an integer, the lowest one first; higher bits are dropped. -/
def intBytes (n : Int) : List UInt8 :=
  let word := (n % 4294967296).toNat
  [UInt8.ofNat word, UInt8.ofNat (word / 256), UInt8.ofNat (word / 65536),
    UInt8.ofNat (word / 16777216)]

/-- The hash of the four bytes of an integer. -/
def hashInt (n : Int) : Int :=
  hash (intBytes n)

end WarehouseRows.Murmur3
