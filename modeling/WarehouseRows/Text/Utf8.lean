/-!
# UTF-8

Text as bytes and back. Writing is the standard encoding. Reading never fails:
each maximal part of the input that begins no well-formed sequence, or breaks one
off, becomes one replacement character `U+FFFD`, and a byte order mark at the very
start is dropped.

## Main definitions

* `Utf8.encode`: the bytes of a text.
* `Utf8.decode`: the text that bytes hold.
-/

namespace WarehouseRows.Utf8

/-- The bytes of a text. -/
def encode (s : String) : List UInt8 :=
  s.toList.flatMap String.utf8EncodeChar

/-- What stands for a part of the input that is not well formed. -/
def replacement : Char := '\uFFFD'

/-- A byte as a number that lies between two bounds. -/
def within (low high : Nat) (b : UInt8) : Bool :=
  low ≤ b.toNat && b.toNat ≤ high

/-- A byte that continues a sequence. -/
def isContinuation (b : UInt8) : Bool :=
  within 0x80 0xBF b

/-- The bounds of the second byte after the first of a three-byte sequence: no
overlong form and no surrogate. -/
def secondOfThree (b : UInt8) : Nat × Nat :=
  if b.toNat = 0xE0 then (0xA0, 0xBF) else if b.toNat = 0xED then (0x80, 0x9F) else (0x80, 0xBF)

/-- The bounds of the second byte after the first of a four-byte sequence: no
overlong form and nothing above `U+10FFFF`. -/
def secondOfFour (b : UInt8) : Nat × Nat :=
  if b.toNat = 0xF0 then (0x90, 0xBF) else if b.toNat = 0xF4 then (0x80, 0x8F) else (0x80, 0xBF)

/-- The six payload bits of a continuation byte. -/
def payload (b : UInt8) : Nat :=
  b.toNat % 64

/-- The characters that bytes hold, with replacements. -/
def decodeChars : List UInt8 → List Char
  | [] => []
  | a :: afterA =>
    if a.toNat < 0x80 then Char.ofNat a.toNat :: decodeChars afterA
    else if within 0xC2 0xDF a then
      match afterA with
      | b :: afterB =>
        if isContinuation b then
          Char.ofNat (a.toNat % 32 * 64 + payload b) :: decodeChars afterB
        else replacement :: decodeChars (b :: afterB)
      | [] => [replacement]
    else if within 0xE0 0xEF a then
      match afterA with
      | b :: afterB =>
        if within (secondOfThree a).1 (secondOfThree a).2 b then
          match afterB with
          | c :: afterC =>
            if isContinuation c then
              Char.ofNat ((a.toNat % 16 * 64 + payload b) * 64 + payload c) :: decodeChars afterC
            else replacement :: decodeChars (c :: afterC)
          | [] => [replacement]
        else replacement :: decodeChars (b :: afterB)
      | [] => [replacement]
    else if within 0xF0 0xF4 a then
      match afterA with
      | b :: afterB =>
        if within (secondOfFour a).1 (secondOfFour a).2 b then
          match afterB with
          | c :: afterC =>
            if isContinuation c then
              match afterC with
              | d :: afterD =>
                if isContinuation d then
                  Char.ofNat
                    (((a.toNat % 8 * 64 + payload b) * 64 + payload c) * 64 + payload d) ::
                    decodeChars afterD
                else replacement :: decodeChars (d :: afterD)
              | [] => [replacement]
            else replacement :: decodeChars (c :: afterC)
          | [] => [replacement]
        else replacement :: decodeChars (b :: afterB)
      | [] => [replacement]
    else replacement :: decodeChars afterA

/-- The characters without a byte order mark at the start. -/
def dropMark : List Char → List Char
  | c :: rest => if c = '\uFEFF' then rest else c :: rest
  | [] => []

/-- The text that bytes hold. -/
def decode (bytes : List UInt8) : String :=
  String.ofList (dropMark (decodeChars bytes))

end WarehouseRows.Utf8
