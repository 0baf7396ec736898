import WarehouseRows.Proofs.IntegerText
import WarehouseRows.Proofs.TableRows

/-!
# Integers are read exactly

The cells of the four integer kinds hold an optional sign and digits, any number of them. A cell is
read just if its integer lies between the bounds of the kind, and as this integer: nothing is
rounded and nothing wraps around. Every other text is refused. What remains of the text besides the
integer is the minus sign of a zero, which a number can carry and a big integer cannot.

## Main definitions

* `Text.DenotesInteger`: the integer that characters denote.
* `PrimitiveKind.width?`, `PrimitiveKind.integerValue`: the kinds of integers and their values.
-/

namespace WarehouseRows

/-- The integer that a value is, for big integers and for numbers without a fraction. The two zeros
are the same integer. -/
def Value.whole? : Value → Option Int
  | .integer n => some n
  | .number x => x.whole?
  | _ => none

/-- Whether characters are an optional sign and a run of digits, and which integer that is. -/
def Text.DenotesInteger (cs : List Char) (n : Whole) : Prop :=
  ∃ s ds negative, IsSign s negative ∧ IsRun ds ∧ cs = s ++ ds ∧
    n = Whole.signed negative (digitsValue ds)

namespace PrimitiveKind

open Text

/-- The width of the integers of a kind, in bits. -/
def width? : PrimitiveKind → Option Nat
  | .byte => some 8
  | .int16 => some 16
  | .int32 => some 32
  | .int64 => some 64
  | _ => none

/-- The value of an integer: a big integer at the greatest width, and otherwise a number. -/
def integerValue (kind : PrimitiveKind) (n : Whole) : Value :=
  match kind with
  | .int64 => .integer n.toInt
  | _ => .number n.toDouble

variable {kind : PrimitiveKind} {bits : Nat}

/-- The value of an integer that has the width of the kind is this integer. -/
theorem whole?_integerValue (hkind : kind.width? = some bits) {negative : Bool} {n : Nat}
    (h : fits bits (Double.signed negative n) = true) :
    (kind.integerValue (Whole.signed negative n)).whole? = some (Double.signed negative n) := by
  have hnumber (hb : bits ≤ 53) : (Value.number (Whole.signed negative n).toDouble).whole? =
      some (Double.signed negative n) := by
    have hlt := natAbs_lt_of_fits hb h
    rw [Double.natAbs_signed] at hlt
    rw [Whole.toDouble_signed]
    exact Double.whole?_ofRatio_one hlt negative
  cases kind with
  | byte | int16 | int32 =>
    obtain rfl := Option.some.inj hkind
    exact hnumber (by decide)
  | int64 => exact congrArg some (Whole.toInt_signed negative n)
  | float32 | float64 | decimal | boolean | string | bytes | datetime =>
    exact absurd hkind (by simp [width?])

/-- A literal is read just if its integer has the width of the kind. -/
theorem parseText_literal (hkind : kind.width? = some bits) {s ds : List Char} {negative : Bool}
    (hs : IsSign s negative) (hd : IsRun ds) :
    kind.parseText (String.ofList (s ++ ds)) =
      if fits bits (Double.signed negative (digitsValue ds)) = true then
        .ok (kind.integerValue (Whole.signed negative (digitsValue ds)))
      else .error (kind.invalid (String.ofList (s ++ ds))) := by
  cases kind with
  | byte | int16 | int32 =>
    obtain rfl := Option.some.inj hkind
    rw [parseText, parseBounded_literal hs hd _ (by decide), ← Whole.toDouble_signed]
    rfl
  | int64 =>
    obtain rfl := Option.some.inj hkind
    rw [parseText, parseLong_literal hs hd, integerValue, Whole.toInt_signed]
  | float32 | float64 | decimal | boolean | string | bytes | datetime =>
    exact absurd hkind (by simp [width?])

/-- Text that is no literal is refused by every kind of integers. -/
theorem parseText_of_none (hkind : kind.width? = some bits) {text : String}
    (h : integerLiteral? text.toList = none) :
    kind.parseText text = .error (kind.invalid text) := by
  cases kind with
  | byte | int16 | int32 => exact parseBounded_of_none h _ _
  | int64 => exact parseLong_of_none h
  | float32 | float64 | decimal | boolean | string | bytes | datetime =>
    exact absurd hkind (by simp [width?])

/-- Text is a literal, and read as one, or it is refused. -/
theorem parseText_cases (hkind : kind.width? = some bits) (text : String) :
    (∃ s ds negative, IsSign s negative ∧ IsRun ds ∧ text.toList = s ++ ds ∧
      kind.parseText text =
        if fits bits (Double.signed negative (digitsValue ds)) = true then
          .ok (kind.integerValue (Whole.signed negative (digitsValue ds)))
        else .error (kind.invalid text)) ∨
    kind.parseText text = .error (kind.invalid text) := by
  cases hliteral : integerLiteral? text.toList with
  | none => exact Or.inr (parseText_of_none hkind hliteral)
  | some literal =>
    obtain ⟨s, hs, hd, htext⟩ := integerLiteral?_eq_some.mp hliteral
    have hread := parseText_literal hkind hs hd
    rw [← htext, String.ofList_toList] at hread
    exact Or.inl ⟨s, _, _, hs, hd, htext, hread⟩

/-- What is read from text is the value of its integer, which has the width of the kind. -/
theorem parseText_eq_ok (hkind : kind.width? = some bits) {text : String} {v : Value} :
    kind.parseText text = .ok v ↔
      ∃ n, DenotesInteger text.toList n ∧ fits bits n.toInt = true ∧ v = kind.integerValue n := by
  constructor
  · intro h
    rcases parseText_cases hkind text with ⟨s, ds, negative, hs, hd, htext, hread⟩ | hread
    · rw [hread] at h
      split at h
      · rename_i hfits
        refine ⟨Whole.signed negative (digitsValue ds), ⟨s, ds, negative, hs, hd, htext, rfl⟩, ?_,
          (Except.ok.inj h).symm⟩
        rwa [Whole.toInt_signed]
      · exact absurd h (by simp)
    · exact absurd (hread.symm.trans h) (by simp)
  · rintro ⟨_, ⟨s, ds, negative, hs, hd, htext, rfl⟩, hfits, rfl⟩
    rw [Whole.toInt_signed] at hfits
    have hread := parseText_literal hkind hs hd
    rw [← htext, String.ofList_toList, if_pos hfits] at hread
    exact hread

theorem parseText_eq_error (hkind : kind.width? = some bits) {text : String} {e : ConversionError}
    (h : kind.parseText text = .error e) : e = kind.invalid text := by
  rcases parseText_cases hkind text with ⟨s, ds, negative, _, _, _, hread⟩ | hread
  · rw [hread] at h
    split at h
    · exact absurd h (by simp)
    · exact (Except.error.inj h).symm
  · exact (Except.error.inj (hread.symm.trans h)).symm

/-! ## Cells -/

/-- A value that is read from a text is present, so a cell is read as its text is. -/
theorem parse_string_integer (hkind : kind.width? = some bits) (nullable : Bool) (text : String) :
    FieldType.parse (.primitive kind) nullable (.string text) =
      (kind.parseText text).mapError Failure.conversion := by
  rw [FieldType.parse_scalar _ nullable rfl rfl, Cell.parseText, Cell.parseScalar]
  cases hread : kind.parseText text with
  | error e => rfl
  | ok v =>
    obtain ⟨n, _, _, rfl⟩ := (parseText_eq_ok hkind).mp hread
    cases kind <;> rfl

/-- The kinds of integers read exactly the integers of their width, each as itself, from a text and
from a cell that holds the text. Everything else is refused as no text of the kind. -/
theorem parseText_integer (hkind : kind.width? = some bits) (text : String) (nullable : Bool) :
    (∀ v, kind.parseText text = .ok v ↔
      ∃ n, DenotesInteger text.toList n ∧ -((2 ^ (bits - 1) : Nat) : Int) ≤ n.toInt ∧
        n.toInt ≤ ((2 ^ (bits - 1) : Nat) : Int) - 1 ∧ v = kind.integerValue n ∧
        v.whole? = some n.toInt) ∧
    (∀ e, kind.parseText text = .error e → e = kind.invalid text) ∧
    FieldType.parse (.primitive kind) nullable (.string text) =
      (kind.parseText text).mapError Failure.conversion := by
  refine ⟨fun v => ?_, fun e => parseText_eq_error hkind, parse_string_integer hkind nullable text⟩
  rw [parseText_eq_ok hkind]
  constructor
  · rintro ⟨n, hdenotes, hfits, rfl⟩
    obtain ⟨hlow, hhigh⟩ := fits_iff.mp hfits
    refine ⟨n, hdenotes, hlow, hhigh, rfl, ?_⟩
    obtain ⟨s, ds, negative, _, _, _, rfl⟩ := hdenotes
    rw [Whole.toInt_signed] at hfits ⊢
    exact whole?_integerValue hkind hfits
  · rintro ⟨n, hdenotes, hlow, hhigh, rfl, _⟩
    exact ⟨n, hdenotes, fits_iff.mpr ⟨hlow, hhigh⟩, rfl⟩

/-- The least integer of 32 bits, behind zeros that fill more than 53 bits, is read, and the integer
below it is refused. -/
theorem parseText_integer_least :
    parseText .int32 "-0000000000000000002147483648" = .ok (.number (Double.ofInt (-2147483648))) ∧
    FieldType.parse (.primitive .int32) true (.string "-2147483649") =
      .error (.conversion (invalid .int32 "-2147483649")) := by
  obtain ⟨hread, _, _⟩ := @parseText_integer .int32 32 rfl "-0000000000000000002147483648" false
  obtain ⟨_, hrefused, hcell⟩ := @parseText_integer .int32 32 rfl "-2147483649" true
  constructor
  · refine (hread _).mpr ⟨.ofInt (-2147483648), ?_, by decide, by decide, rfl, by decide +kernel⟩
    exact ⟨['-'], "0000000000000000002147483648".toList, true, .minus, by decide, rfl, by decide⟩
  · rw [hcell]
    cases hbeyond : parseText .int32 "-2147483649" with
    | error e =>
      obtain rfl := hrefused e hbeyond
      rfl
    | ok v => exact absurd (hbeyond.symm.trans (by rfl : _ = .error _)) (by simp)

end PrimitiveKind

end WarehouseRows
