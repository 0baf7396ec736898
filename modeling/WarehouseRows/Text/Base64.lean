/-!
# Base64

Bytes as text of the standard alphabet with padding. Reading accepts whole groups
of four characters only, with padding at the very end and nowhere else; bits of
the last character that no byte needs are ignored.

## Main definitions

* `Base64.encode`: the text of bytes.
* `Base64.decode?`: the bytes of a text, `none` when it is not well formed.
-/

namespace WarehouseRows.Base64

/-! ## The alphabet -/

/-- The character for six bits. -/
def charOf (n : Nat) : Char :=
  if n < 26 then Char.ofNat ('A'.toNat + n)
  else if n < 52 then Char.ofNat ('a'.toNat + (n - 26))
  else if n < 62 then Char.ofNat ('0'.toNat + (n - 52))
  else if n = 62 then '+'
  else '/'

/-- The six bits of a character of the alphabet. -/
def valueOf? (c : Char) : Option Nat :=
  if 'A' ≤ c ∧ c ≤ 'Z' then some (c.toNat - 'A'.toNat)
  else if 'a' ≤ c ∧ c ≤ 'z' then some (c.toNat - 'a'.toNat + 26)
  else if '0' ≤ c ∧ c ≤ '9' then some (c.toNat - '0'.toNat + 52)
  else if c = '+' then some 62
  else if c = '/' then some 63
  else none

/-! ## Writing -/

/-- The characters of bytes, three bytes to four characters. -/
def encodeChars : List UInt8 → List Char
  | a :: b :: c :: rest =>
    let n := (a.toNat * 256 + b.toNat) * 256 + c.toNat
    charOf (n / 262144) :: charOf (n / 4096 % 64) :: charOf (n / 64 % 64) :: charOf (n % 64) ::
      encodeChars rest
  | [a, b] =>
    let n := (a.toNat * 256 + b.toNat) * 4
    [charOf (n / 4096), charOf (n / 64 % 64), charOf (n % 64), '=']
  | [a] =>
    let n := a.toNat * 16
    [charOf (n / 64), charOf (n % 64), '=', '=']
  | [] => []

/-- The text of bytes. -/
def encode (bytes : List UInt8) : String :=
  String.ofList (encodeChars bytes)

/-! ## Reading -/

/-- The bytes of characters, four characters to three bytes. -/
def decodeChars? : List Char → Option (List UInt8)
  | [] => some []
  | w :: x :: y :: z :: rest =>
    match valueOf? w, valueOf? x with
    | some a, some b =>
      match valueOf? y, valueOf? z with
      | some c, some d =>
        let n := ((a * 64 + b) * 64 + c) * 64 + d
        (decodeChars? rest).map fun tail =>
          UInt8.ofNat (n / 65536) :: UInt8.ofNat (n / 256) :: UInt8.ofNat n :: tail
      | some c, none =>
        if z = '=' ∧ rest = [] then
          let n := (a * 64 + b) * 64 + c
          some [UInt8.ofNat (n / 1024), UInt8.ofNat (n / 4)]
        else none
      | none, _ =>
        if y = '=' ∧ z = '=' ∧ rest = [] then some [UInt8.ofNat ((a * 64 + b) / 16)] else none
    | _, _ => none
  | _ => none

/-- The bytes of a text, `none` when it is not well formed. -/
def decode? (text : String) : Option (List UInt8) :=
  decodeChars? text.toList

end WarehouseRows.Base64
