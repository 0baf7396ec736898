import WarehouseRows.Json.Writer

/-!
# Run identifiers

The log lines of one run carry one random identifier: sixteen bytes in hexadecimal
digits, in five groups, with six bits that say that the rest is random.

## Main definitions

* `RunId.ofBytes`: the identifier of random bytes.
-/

namespace WarehouseRows.RunId

/-- The two digits of a byte. -/
def byteDigits (b : UInt8) : List Char :=
  [Json.hexDigit (b.toNat / 16), Json.hexDigit (b.toNat % 16)]

/-- The bytes with the six fixed bits set. -/
def mark (bytes : List UInt8) : List UInt8 :=
  bytes.mapIdx fun i b =>
    if i = 6 then 0x40 ||| (b &&& 0x0f) else if i = 8 then 0x80 ||| (b &&& 0x3f) else b

/-- The identifier of sixteen random bytes. -/
def ofBytes (bytes : List UInt8) : String :=
  let digits := (mark bytes).flatMap byteDigits
  let group (start length : Nat) : String := String.ofList ((digits.drop start).take length)
  "-".intercalate [group 0 8, group 8 4, group 12 4, group 16 4, group 20 12]

end WarehouseRows.RunId
