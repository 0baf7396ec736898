import WarehouseRows.Proofs.NumberLiterals
import WarehouseRows.Proofs.TruthWords

/-!
# Words and numbers in text

The cells of truth values and of floating-point numbers hold words. A number is a decimal literal
with an optional sign, `Infinity` with an optional sign, or `NaN` with an optional plus sign. The
reader takes one plus sign away before it compares words, so that one text more is read, minus
infinity behind both signs; all else is refused. Of truth values nothing is refused: what is not the
word for true is false, also where it is no word of a truth value at all.

## Main definitions

* `Double.FloatText`: the grammar of floating-point numbers, and what its texts denote.
* `Double.TakenAs`: the grammar with the text that is read besides it.

## Main results

* `PrimitiveKind.floatLiteral?_eq_some`: the texts that are read as numbers.
-/

namespace WarehouseRows

namespace Double

open Text

/-- The texts of floating-point numbers, and the numbers that they denote. -/
inductive FloatText : List Char → Double → Prop
  | decimal {s m x whole fraction : List Char} {negative : Bool} {e : Int}
    (hs : IsSign s negative) (hm : IsMantissa m whole fraction) (hx : IsExponent x e) :
    FloatText (s ++ (m ++ x))
      (ofDecimal negative (digitsValue (whole ++ fraction)) (e - fraction.length))
  | infinity {s : List Char} {negative : Bool} (hs : IsSign s negative) :
    FloatText (s ++ "Infinity".toList) (.infinity negative)
  | nan : FloatText "NaN".toList .nan
  | plusNan : FloatText ('+' :: "NaN".toList) .nan

/-- What text is taken for: the number that it denotes, and minus infinity behind both signs. -/
def TakenAs (cs : List Char) (x : Double) : Prop :=
  FloatText cs x ∨ cs = "+-Infinity".toList ∧ x = .infinity true

/-- The text that is read besides the grammar is not of the grammar. -/
theorem not_floatText_two_signs (x : Double) : ¬FloatText "+-Infinity".toList x := by
  intro h
  generalize hcs : "+-Infinity".toList = cs at h
  cases h with
  | decimal hs hm hx =>
    have hsplit := congrArg splitSign hcs
    rw [hs.splitSign_append (hm.unsigned_append _)] at hsplit
    have hread := readDecimal?_append hm hx
    have hnone : readDecimal? (splitSign "+-Infinity".toList).2 = none := by decide
    rw [hsplit] at hnone
    exact absurd (hread.symm.trans hnone) (by simp)
  | infinity hs => cases hs <;> exact absurd hcs (by decide)
  | nan | plusNan => exact absurd hcs (by decide)

end Double

namespace PrimitiveKind

open Text Double

/-! ## Numbers -/

/-- What is left to compare with the words once a plus sign is taken away. -/
def unplussed (cs : List Char) : List Char :=
  if cs.head? = some '+' then cs.drop 1 else cs

theorem eq_of_unplussed {cs word : List Char} (h : unplussed cs = word) :
    cs = word ∨ cs = '+' :: word := by
  rw [unplussed] at h
  split at h
  · rename_i hplus
    obtain ⟨rest, rfl⟩ := List.head?_eq_some_iff.mp hplus
    exact Or.inr (congrArg _ h)
  · exact Or.inl h

/-- A text of a literal with its sign is none of the words. -/
theorem unplussed_literal_ne {s m x whole fraction : List Char} {negative : Bool} {e : Int}
    (hs : IsSign s negative) (hm : IsMantissa m whole fraction) (hx : IsExponent x e)
    {word : List Char} (hword : readDecimal? (splitSign word).2 = none) :
    unplussed (s ++ (m ++ x)) ≠ word := by
  rintro rfl
  have hunsigned := hm.unsigned_append x
  have hread := readDecimal?_append hm hx
  have hbare : unplussed (m ++ x) = m ++ x := by
    have hhead : (m ++ x).head? ≠ some '+' := fun hplus => (hunsigned '+' hplus).1 rfl
    rw [unplussed, if_neg hhead]
  have hsplit : (splitSign (unplussed (s ++ (m ++ x)))).2 = m ++ x := by
    cases hs with
    | none =>
      rw [List.nil_append, hbare]
      exact congrArg Prod.snd (IsSign.none.splitSign_append hunsigned)
    | plus => exact congrArg Prod.snd (IsSign.none.splitSign_append hunsigned)
    | minus => rfl
  rw [hsplit, hread] at hword
  exact absurd hword (by simp)

/-- The texts that are read as numbers are those that are taken for one. -/
theorem floatLiteral?_eq_some {text : String} {x : Double} :
    floatLiteral? text = some x ↔ TakenAs text.toList x := by
  have hunfold : floatLiteral? text =
      if unplussed text.toList = "NaN".toList then some .nan
      else if unplussed text.toList = "Infinity".toList then some (.infinity false)
      else if unplussed text.toList = "-Infinity".toList then some (.infinity true)
      else (readDecimal? (splitSign text.toList).2).map fun d =>
        ofDecimal (splitSign text.toList).1 d.digits d.exponent := rfl
  rw [hunfold]
  generalize text.toList = cs
  constructor
  · intro h
    split at h
    · rename_i hnan
      obtain rfl := Option.some.inj h
      rcases eq_of_unplussed hnan with rfl | rfl
      · exact Or.inl .nan
      · exact Or.inl .plusNan
    split at h
    · rename_i hinfinity
      obtain rfl := Option.some.inj h
      rcases eq_of_unplussed hinfinity with rfl | rfl
      · exact Or.inl (.infinity .none)
      · exact Or.inl (.infinity .plus)
    split at h
    · rename_i hinfinity
      obtain rfl := Option.some.inj h
      rcases eq_of_unplussed hinfinity with rfl | rfl
      · exact Or.inl (.infinity .minus)
      · exact Or.inr ⟨rfl, rfl⟩
    · obtain ⟨d, hread, rfl⟩ := Option.map_eq_some_iff.mp h
      obtain ⟨s, hs, hcs⟩ := exists_isSign cs
      obtain ⟨m, whole, fraction, e, _, hm, hx, hbody, rfl⟩ := readDecimal?_eq_some.mp hread
      rw [hbody] at hcs
      generalize (splitSign cs).1 = negative at hs ⊢
      subst hcs
      exact Or.inl (.decimal hs hm hx)
  · rintro (h | ⟨rfl, rfl⟩)
    · cases h with
      | @decimal s m x whole fraction negative e hs hm hx =>
        have hne {word : List Char} (hword : readDecimal? (splitSign word).2 = none) :=
          unplussed_literal_ne hs hm hx hword
        rw [if_neg (hne (by decide)), if_neg (hne (by decide)), if_neg (hne (by decide)),
          hs.splitSign_append (hm.unsigned_append x), readDecimal?_append hm hx]
        rfl
      | infinity hs => cases hs <;> rfl
      | nan => rfl
      | plusNan => rfl
    · rfl

/-- A floating-point number is read from the texts that are taken for one. -/
theorem parseFloat_eq_ok {kind : PrimitiveKind} {text : String} {v : Value} :
    parseFloat kind text = .ok v ↔
      ∃ x, TakenAs text.toList x ∧ v = .number (if kind = .float32 then x.toSingle else x) := by
  simp only [← floatLiteral?_eq_some, parseFloat]
  cases floatLiteral? text with
  | none => simp
  | some x => simp [eq_comm]

/-- Every other text is refused. -/
theorem parseFloat_of_not_taken {kind : PrimitiveKind} {text : String}
    (h : ¬∃ x, TakenAs text.toList x) : parseFloat kind text = .error (kind.invalid text) := by
  simp only [← floatLiteral?_eq_some, not_exists] at h
  rw [parseFloat, Option.eq_none_iff_forall_ne_some.mpr h]

/-! ## Words -/

/-- A truth value is true for the word `true` in any letter case and false for every other text,
whether it is the word `false` or not. Floating-point numbers are read from the texts that are taken
for one, and from no others. -/
theorem parseText_word (text : String) (v : Value) :
    parseText .boolean text = .ok (.bool (decide (SpellsWord "true".toList text.toList))) ∧
    (parseText .float32 text = .ok v ↔ ∃ x, TakenAs text.toList x ∧ v = .number x.toSingle) ∧
    (parseText .float64 text = .ok v ↔ ∃ x, TakenAs text.toList x ∧ v = .number x) ∧
    ((∃ x, TakenAs text.toList x) ∨
      parseText .float32 text = .error (invalid .float32 text) ∧
      parseText .float64 text = .error (invalid .float64 text)) := by
  refine ⟨?_, parseFloat_eq_ok, parseFloat_eq_ok, ?_⟩
  · have htrue : isTrueWord text = decide (SpellsWord "true".toList text.toList) :=
      Bool.eq_iff_iff.mpr ((isTrueWord_iff text).trans decide_eq_true_iff.symm)
    rw [parseText, htrue]
  · by_cases htaken : ∃ x, TakenAs text.toList x
    · exact Or.inl htaken
    · exact Or.inr ⟨parseFloat_of_not_taken htaken, parseFloat_of_not_taken htaken⟩

/-- `yes` is neither word of a truth value and reads as false. Both signs before `Infinity` are no
text of the grammar and read as minus infinity. -/
theorem parseText_yes_and_two_signs :
    ¬SpellsWord "true".toList "yes".toList ∧ ¬SpellsWord "false".toList "yes".toList ∧
    parseText .boolean "yes" = .ok (.bool false) ∧
    (∀ x, ¬FloatText "+-Infinity".toList x) ∧
    parseText .float64 "+-Infinity" = .ok (.number (.infinity true)) := by
  have hfalse : isTrueWord "yes" = false := by decide +kernel
  refine ⟨by decide, by decide, ?_, not_floatText_two_signs, rfl⟩
  rw [parseText, hfalse]

end PrimitiveKind

end WarehouseRows
