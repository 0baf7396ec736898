import WarehouseRows.Text.Base64

/-!
# Base64 read back

Each character of the alphabet stands for the six bits that it was written for, so that
three bytes come back from their four characters, and one or two bytes at the end from
two or three characters with their padding.
-/

namespace WarehouseRows.Base64

/-- The character of six bits stands for them. -/
theorem valueOf?_charOf : ∀ n < 64, valueOf? (charOf n) = some n := by
  decide

/-- No character of the alphabet is the padding. -/
theorem valueOf?_padding : valueOf? '=' = none := by
  decide

/-- A byte is the low byte of any number that it ends. -/
theorem ofNat_toNat_add (b : UInt8) (k : Nat) : UInt8.ofNat (k * 256 + b.toNat) = b := by
  apply UInt8.toNat_inj.mp
  have hb := b.toNat_lt
  simp only [UInt8.toNat_ofNat']
  omega

/-- Reading the characters of bytes gives the bytes. -/
theorem decodeChars?_encodeChars (bytes : List UInt8) :
    decodeChars? (encodeChars bytes) = some bytes := by
  fun_induction encodeChars bytes with
  | case1 a b c rest n ih =>
    have ha := a.toNat_lt
    have hb := b.toNat_lt
    have hc := c.toNat_lt
    have h1 := valueOf?_charOf (n / 262144) (by omega)
    have h2 := valueOf?_charOf (n / 4096 % 64) (by omega)
    have h3 := valueOf?_charOf (n / 64 % 64) (by omega)
    have h4 := valueOf?_charOf (n % 64) (by omega)
    have hn : ((n / 262144 * 64 + n / 4096 % 64) * 64 + n / 64 % 64) * 64 + n % 64 = n := by omega
    have ha' : UInt8.ofNat (n / 65536) = a := by
      rw [show n / 65536 = 0 * 256 + a.toNat by omega, ofNat_toNat_add]
    have hb' : UInt8.ofNat (n / 256) = b := by
      rw [show n / 256 = a.toNat * 256 + b.toNat by omega, ofNat_toNat_add]
    have hc' : UInt8.ofNat n = c := ofNat_toNat_add c (a.toNat * 256 + b.toNat)
    simp only [decodeChars?, h1, h2, h3, h4, ih, hn, ha', hb', hc', Option.map_some]
  | case2 a b n =>
    have ha := a.toNat_lt
    have hb := b.toNat_lt
    have h1 := valueOf?_charOf (n / 4096) (by omega)
    have h2 := valueOf?_charOf (n / 64 % 64) (by omega)
    have h3 := valueOf?_charOf (n % 64) (by omega)
    have hn : (n / 4096 * 64 + n / 64 % 64) * 64 + n % 64 = n := by omega
    have ha' : UInt8.ofNat (n / 1024) = a := by
      rw [show n / 1024 = 0 * 256 + a.toNat by omega, ofNat_toNat_add]
    have hb' : UInt8.ofNat (n / 4) = b := by
      rw [show n / 4 = a.toNat * 256 + b.toNat by omega, ofNat_toNat_add]
    simp only [decodeChars?, h1, h2, h3, valueOf?_padding, hn, ha', hb', and_self, if_true]
  | case3 a n =>
    have ha := a.toNat_lt
    have h1 := valueOf?_charOf (n / 64) (by omega)
    have h2 := valueOf?_charOf (n % 64) (by omega)
    have hn : (n / 64 * 64 + n % 64) / 16 = 0 * 256 + a.toNat := by omega
    simp only [decodeChars?, h1, h2, valueOf?_padding, hn, ofNat_toNat_add, and_self, if_true]
  | case4 => rfl

/-- Reading the text of bytes gives the bytes. -/
theorem decode?_encode (bytes : List UInt8) : decode? (encode bytes) = some bytes := by
  rw [decode?, encode, String.toList_ofList, decodeChars?_encodeChars]

end WarehouseRows.Base64
