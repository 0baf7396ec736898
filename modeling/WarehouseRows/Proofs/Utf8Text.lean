import WarehouseRows.Avro.Reader
import WarehouseRows.Proofs.AcceptedDates
import WarehouseRows.Proofs.CalendarRange
import WarehouseRows.Proofs.Outcome

/-!
# Texts in UTF-8

A character is written with one to four bytes, and these are read as the character, whatever
follows. So the bytes of a text hold its characters again, and nothing in the text can be lost but
a byte order mark at its very start, which the reader drops. A text is therefore read alike from
its bytes and from itself just if it does not start with the mark, be it as a text or as a date with
a time. With the mark in front no text is a date with a time, but its bytes may be one.

## Main results

* `Utf8.decodeChars_encodeChar`: what is read of the bytes of a character.
* `FieldType.readAvro_toUTF8`: native texts against the bytes of texts.
-/

namespace WarehouseRows

namespace Utf8

/-! ## Bytes -/

theorem toNat_byte {n : Nat} (h : n < 256) : (UInt8.ofNat n).toNat = n :=
  UInt8.toNat_ofNat_of_lt' h

theorem within_iff {low high : Nat} {b : UInt8} :
    within low high b = true ↔ low ≤ b.toNat ∧ b.toNat ≤ high := by
  rw [within, Bool.and_eq_true, decide_eq_true_eq, decide_eq_true_eq]

theorem not_within {low high : Nat} {b : UInt8} (h : b.toNat < low ∨ high < b.toNat) :
    ¬within low high b = true := by
  rw [within_iff]
  omega

theorem isContinuation_tail (n : Nat) : isContinuation (UInt8.ofNat (n % 64 + 128)) = true := by
  rw [isContinuation, within_iff, toNat_byte (by omega)]
  omega

theorem payload_tail (n : Nat) : payload (UInt8.ofNat (n % 64 + 128)) = n % 64 := by
  rw [payload, toNat_byte (by omega)]
  omega

/-! ## Sequences -/

variable {a b c d : UInt8} {rest : List UInt8}

theorem decodeChars_one (ha : a.toNat < 0x80) :
    decodeChars (a :: rest) = Char.ofNat a.toNat :: decodeChars rest := by
  rw [decodeChars.eq_def]
  dsimp only
  rw [if_pos ha]

theorem decodeChars_two (ha : within 0xC2 0xDF a = true) (hb : isContinuation b = true) :
    decodeChars (a :: b :: rest) =
      Char.ofNat (a.toNat % 32 * 64 + payload b) :: decodeChars rest := by
  have hrange := within_iff.mp ha
  rw [decodeChars.eq_def]
  dsimp only
  rw [if_neg (by omega), if_pos ha, if_pos hb]

theorem decodeChars_three (ha : within 0xE0 0xEF a = true)
    (hb : within (secondOfThree a).1 (secondOfThree a).2 b = true)
    (hc : isContinuation c = true) :
    decodeChars (a :: b :: c :: rest) =
      Char.ofNat ((a.toNat % 16 * 64 + payload b) * 64 + payload c) :: decodeChars rest := by
  have hrange := within_iff.mp ha
  rw [decodeChars.eq_def]
  dsimp only
  rw [if_neg (by omega), if_neg (not_within (by omega)), if_pos ha, if_pos hb, if_pos hc]

theorem decodeChars_four (ha : within 0xF0 0xF4 a = true)
    (hb : within (secondOfFour a).1 (secondOfFour a).2 b = true)
    (hc : isContinuation c = true) (hd : isContinuation d = true) :
    decodeChars (a :: b :: c :: d :: rest) =
      Char.ofNat (((a.toNat % 8 * 64 + payload b) * 64 + payload c) * 64 + payload d) ::
        decodeChars rest := by
  have hrange := within_iff.mp ha
  rw [decodeChars.eq_def]
  dsimp only
  rw [if_neg (by omega), if_neg (not_within (by omega)), if_neg (not_within (by omega)), if_pos ha,
    if_pos hb, if_pos hc, if_pos hd]

/-- The second of three bytes lies within the bounds that the first sets, since no character is a
surrogate. -/
theorem within_secondOfThree {v : Nat} (hlow : 0x7FF < v) (hhigh : v ≤ 0xFFFF)
    (hvalid : v < 0xD800 ∨ 0xDFFF < v) (ha : a.toNat = v / 4096 % 16 + 224)
    (hb : b.toNat = v / 64 % 64 + 128) :
    within (secondOfThree a).1 (secondOfThree a).2 b = true := by
  rw [within_iff, secondOfThree, ha, hb]
  split
  · exact ⟨by dsimp only; omega, by dsimp only; omega⟩
  split
  · exact ⟨by dsimp only; omega, by dsimp only; omega⟩
  · exact ⟨by dsimp only; omega, by dsimp only; omega⟩

theorem within_secondOfFour {v : Nat} (hlow : 0xFFFF < v) (hhigh : v < 0x110000)
    (ha : a.toNat = v / 262144 % 8 + 240) (hb : b.toNat = v / 4096 % 64 + 128) :
    within (secondOfFour a).1 (secondOfFour a).2 b = true := by
  rw [within_iff, secondOfFour, ha, hb]
  split
  · exact ⟨by dsimp only; omega, by dsimp only; omega⟩
  split
  · exact ⟨by dsimp only; omega, by dsimp only; omega⟩
  · exact ⟨by dsimp only; omega, by dsimp only; omega⟩

/-! ## Texts -/

/-- The bytes of a character are read as this character, whatever follows. -/
theorem decodeChars_encodeChar (x : Char) (rest : List UInt8) :
    decodeChars (String.utf8EncodeChar x ++ rest) = x :: decodeChars rest := by
  have hvalid : x.val.toNat < 0xD800 ∨ (0xDFFF < x.val.toNat ∧ x.val.toNat < 0x110000) := x.valid
  have hback : Char.ofNat x.val.toNat = x := Char.ofNat_toNat x
  rw [String.utf8EncodeChar]
  generalize x.val.toNat = v at *
  split
  · have ha : (UInt8.ofNat v).toNat = v := toNat_byte (by omega)
    rw [List.cons_append, decodeChars_one (by omega), ha, hback]
    rfl
  split
  · have ha : (UInt8.ofNat (v / 64 % 32 + 192)).toNat = v / 64 % 32 + 192 := toNat_byte (by omega)
    have hsum : (v / 64 % 32 + 192) % 32 * 64 + v % 64 = v := by omega
    rw [List.cons_append, List.cons_append,
      decodeChars_two (within_iff.mpr (by omega)) (isContinuation_tail v), ha, payload_tail, hsum,
      hback]
    rfl
  split
  · have ha : (UInt8.ofNat (v / 4096 % 16 + 224)).toNat = v / 4096 % 16 + 224 :=
      toNat_byte (by omega)
    have hsecond := within_secondOfThree (by omega) (by omega) (by omega) ha
      (toNat_byte (by omega) : (UInt8.ofNat (v / 64 % 64 + 128)).toNat = _)
    have hsum : ((v / 4096 % 16 + 224) % 16 * 64 + v / 64 % 64) * 64 + v % 64 = v := by omega
    rw [List.cons_append, List.cons_append, List.cons_append,
      decodeChars_three (within_iff.mpr (by omega)) hsecond (isContinuation_tail v), ha,
      payload_tail, payload_tail, hsum, hback]
    rfl
  · have ha : (UInt8.ofNat (v / 262144 % 8 + 240)).toNat = v / 262144 % 8 + 240 :=
      toNat_byte (by omega)
    have hsecond := within_secondOfFour (by omega) (by omega) ha
      (toNat_byte (by omega) : (UInt8.ofNat (v / 4096 % 64 + 128)).toNat = _)
    have hsum : (((v / 262144 % 8 + 240) % 8 * 64 + v / 4096 % 64) * 64 + v / 64 % 64) * 64 +
        v % 64 = v := by omega
    rw [List.cons_append, List.cons_append, List.cons_append, List.cons_append,
      decodeChars_four (within_iff.mpr (by omega)) hsecond (isContinuation_tail (v / 64))
        (isContinuation_tail v), ha, payload_tail, payload_tail, payload_tail, hsum, hback]
    rfl

theorem decodeChars_flatMap (cs : List Char) :
    decodeChars (cs.flatMap String.utf8EncodeChar) = cs := by
  induction cs with
  | nil => rfl
  | cons x cs ih => rw [List.flatMap_cons, decodeChars_encodeChar, ih]

/-- The bytes of a text are those of the standard encoding. -/
theorem encode_eq_toUTF8 (s : String) : encode s = s.toUTF8.data.toList := by
  have hs : s.toUTF8 = (String.ofList s.toList).toUTF8 := by rw [String.ofList_toList]
  rw [hs, String.toUTF8_eq_toByteArray]
  exact List.toList_data_toByteArray.symm

/-- The bytes of a text hold the text, less a mark at its start. -/
theorem decode_toUTF8 (s : String) :
    decode s.toUTF8.data.toList = String.ofList (dropMark s.toList) := by
  rw [← encode_eq_toUTF8, decode, encode, decodeChars_flatMap]

/-- What stands at the start of bytes to tell how they were written. -/
def mark : Char := '\uFEFF'

theorem dropMark_eq (cs : List Char) :
    dropMark cs = if cs.head? = some mark then cs.tail else cs := by
  cases cs with
  | nil => rfl
  | cons c cs => simp [dropMark, mark]

end Utf8

/-! ## Dates with a time -/

namespace LocalDateTime

/-- No text with a mark in front is a date with a time. -/
theorem exists_parse_of_mark {text : String} (h : text.toList.head? = some Utf8.mark) :
    ∃ e, parse text = .error e ∧ e.code = .invalidValue := by
  obtain ⟨cs, hcs⟩ := List.head?_eq_some_iff.mp h
  simp only [parse]
  split
  · exact ⟨_, rfl, rfl⟩
  · cases hdate : LocalDate.parse (String.ofList (text.toList.takeWhile (· != 'T'))) with
    | error e =>
      obtain ⟨-, rfl⟩ := LocalDate.parse_eq_error.mp hdate
      exact ⟨_, rfl, rfl⟩
    | ok date =>
      have hmark : Utf8.mark ∈ text.toList.takeWhile (· != 'T') := by
        rw [hcs, List.takeWhile_cons_of_pos (by decide)]
        exact List.mem_cons_self
      have hchars := LocalDate.eq_hyphen_or_isDigit_of_parse hdate
      rw [String.toList_ofList] at hchars
      exact absurd (hchars _ hmark) (by decide)

end LocalDateTime

/-! ## Native texts -/

namespace FieldType

variable (options : ConversionOptions) (nullable : Bool)

theorem readAvro_string_bytes (content : List UInt8) :
    readAvro options (.primitive .string) nullable (.bytes content) =
      .ok (.string (Utf8.decode content)) := rfl

/-- A date with a time is read from bytes as from the text that they hold. -/
theorem readAvro_datetime_bytes (identifier : String) (base : FieldType)
    (labels : Option (List String)) (content : List UInt8) :
    readAvro options (.logical identifier base .datetime labels) nullable (.bytes content) =
      readAvro options (.logical identifier base .datetime labels) nullable
        (.string (Utf8.decode content)) := by
  simp only [readAvro, Value.isAbsent]
  rfl

/-- A text comes back from itself, and from its bytes unless it starts with a mark; a date with a
time is read alike from a text and from its bytes unless the text starts with a mark. The mark is
dropped from the bytes, but not from the text, which is no date with a time then. -/
theorem readAvro_toUTF8 (identifier : String) (base : FieldType) (labels : Option (List String))
    (s : String) :
    readAvro options (.primitive .string) nullable (.string s) = .ok (.string s) ∧
    if s.toList.head? = some Utf8.mark then
      readAvro options (.primitive .string) nullable (.bytes s.toUTF8.data.toList) =
          .ok (.string (String.ofList s.toList.tail)) ∧
        readAvro options (.logical identifier base .datetime labels) nullable
            (.bytes s.toUTF8.data.toList) =
          readAvro options (.logical identifier base .datetime labels) nullable
            (.string (String.ofList s.toList.tail)) ∧
        ∃ e, readAvro options (.logical identifier base .datetime labels) nullable (.string s) =
            .error (.conversion e) ∧ e.code = .invalidValue
    else
      readAvro options (.primitive .string) nullable (.bytes s.toUTF8.data.toList) =
          .ok (.string s) ∧
        readAvro options (.logical identifier base .datetime labels) nullable
            (.bytes s.toUTF8.data.toList) =
          readAvro options (.logical identifier base .datetime labels) nullable (.string s) := by
  refine ⟨rfl, ?_⟩
  rw [readAvro_string_bytes, readAvro_datetime_bytes, Utf8.decode_toUTF8, Utf8.dropMark_eq]
  split
  · rename_i hmark
    obtain ⟨e, he, hcode⟩ := LocalDateTime.exists_parse_of_mark hmark
    have hrefused : Avro.readDateTime (.logical identifier base .datetime labels) (.string s) =
        .error (.conversion e) := by
      rw [Avro.readDateTime, Avro.toText, Outcome.ok_bind, he]
      rfl
    refine ⟨rfl, rfl, e, ?_, hcode⟩
    rw [readAvro, if_neg (by simp [Value.isAbsent])]
    exact hrefused
  · rw [String.ofList_toList]
    exact ⟨rfl, rfl⟩

/-- A mark in front is lost from the bytes of a text, and makes a date with a time unreadable in a
text, but not in its bytes. -/
theorem readAvro_marked :
    ("\uFEFFa".toUTF8.data.toList = [0xEF, 0xBB, 0xBF, 0x61] ∧
      readAvro { } (.primitive .string) false (.bytes [0xEF, 0xBB, 0xBF, 0x61]) =
        .ok (.string "a") ∧
      readAvro { } (.primitive .string) false (.string "\uFEFFa") = .ok (.string "\uFEFFa")) ∧
    (∃ x, readAvro { } .datetime false (.bytes "\uFEFF2020-01-01T10:15".toUTF8.data.toList) =
        .ok (.dateTime x)) ∧
      ∃ f, readAvro { } .datetime false (.string "\uFEFF2020-01-01T10:15") = .error f := by
  refine ⟨⟨?_, ?_, rfl⟩, ⟨_, rfl⟩, ⟨_, rfl⟩⟩
  · decide
  · rfl

end FieldType

end WarehouseRows
