import WarehouseRows.Number.Reading
import WarehouseRows.Proofs.Digits

/-!
# Literals of numbers

The grammar of decimal literals, stated apart from the reader: digits, with a point behind them,
between them or in front of them, and perhaps an exponent. The reader goes through the text once
and never back; still it takes exactly the literals of the grammar. Text in any base reads as the
number of the literal, if the text is one.

## Main definitions

* `Text.IsRun`, `Text.IsSign`: runs of digits and signs.
* `Double.IsMantissa`, `Double.IsExponent`: the two parts of a decimal literal.

## Main results

* `Double.readDecimal?_eq_some`: the literals that are read, and what is read.
* `Double.ofText_literal`: the number that a literal with a sign denotes.
-/

namespace WarehouseRows

namespace Text

/-! ## Signs and runs of digits -/

/-- Whether characters are digits only, and at least one. -/
structure IsRun (cs : List Char) : Prop where
  ne_nil : cs ≠ []
  digits : ∀ c ∈ cs, c.isDigit = true

instance : DecidablePred IsRun := fun cs =>
  decidable_of_iff (cs ≠ [] ∧ cs.all Char.isDigit = true)
    ⟨fun h => ⟨h.1, List.all_eq_true.mp h.2⟩, fun h => ⟨h.ne_nil, List.all_eq_true.mpr h.digits⟩⟩

theorem isRun_repr (n : Nat) : IsRun (Nat.repr n).toList :=
  ⟨repr_ne_nil n, fun _ => isDigit_of_mem_repr⟩

/-- Whether characters are an optional sign, and whether the sign is a minus. -/
inductive IsSign : List Char → Bool → Prop
  | none : IsSign [] false
  | plus : IsSign ['+'] false
  | minus : IsSign ['-'] true

/-- Whether text goes on without a sign. -/
def Unsigned (cs : List Char) : Prop :=
  ∀ c ∈ cs.head?, c ≠ '+' ∧ c ≠ '-'

theorem unsigned_cons {c : Char} (cs : List Char) (hplus : c ≠ '+') (hminus : c ≠ '-') :
    Unsigned (c :: cs) := by
  simpa [Unsigned] using ⟨hplus, hminus⟩

theorem IsRun.unsigned_append {ds : List Char} (h : IsRun ds) (rest : List Char) :
    Unsigned (ds ++ rest) := by
  cases ds with
  | nil => exact absurd rfl h.ne_nil
  | cons c ds =>
    have hc := h.digits c List.mem_cons_self
    apply unsigned_cons
    · rintro rfl
      exact absurd hc (by decide)
    · rintro rfl
      exact absurd hc (by decide)

/-- A sign is taken off what goes on without one. -/
theorem IsSign.splitSign_append {s body : List Char} {negative : Bool} (h : IsSign s negative)
    (hbody : Unsigned body) : splitSign (s ++ body) = (negative, body) := by
  cases h with
  | none =>
    cases body with
    | nil => rfl
    | cons c body =>
      obtain ⟨hplus, hminus⟩ := hbody c rfl
      simp [splitSign, hplus, hminus]
  | plus => rfl
  | minus => rfl

/-- What is taken off in front is a sign. -/
theorem exists_isSign (cs : List Char) :
    ∃ s, IsSign s (splitSign cs).1 ∧ cs = s ++ (splitSign cs).2 := by
  rw [splitSign.eq_def]
  split
  · exact ⟨['-'], .minus, rfl⟩
  · exact ⟨['+'], .plus, rfl⟩
  · exact ⟨[], .none, rfl⟩

theorem isSign_signChars (negative : Bool) : IsSign (signChars negative) negative := by
  cases negative with
  | false => exact .none
  | true => exact .minus

theorem IsSign.isBlank {s : List Char} {negative : Bool} (h : IsSign s negative) :
    ∀ c ∈ s, isBlank c = false := by
  cases h with
  | none => simp
  | plus | minus =>
    intro c hc
    obtain rfl := List.mem_singleton.mp hc
    rfl

end Text

namespace Double

open Text

/-! ## Counts of digits -/

theorem lt_pow_digitCount (n : Nat) : n < 10 ^ digitCount n := by
  have hlt := @Text.digitsValue_lt (Nat.repr n).toList fun _ => Text.isDigit_of_mem_repr
  rw [Text.digitsValue_repr, String.length_toList] at hlt
  exact hlt

theorem pow_le_of_lt_digitCount {n k : Nat} (hn : n ≠ 0) (hk : k < digitCount n) : 10 ^ k ≤ n := by
  rcases Nat.eq_zero_or_pos k with rfl | hpos
  · exact Nat.one_le_iff_ne_zero.mpr hn
  · rw [← Nat.not_lt]
    intro hlt
    have hlen := (Nat.length_toDigits_le_iff (b := 10) (by decide) hpos).mpr hlt
    rw [← Nat.toList_repr, String.length_toList] at hlen
    exact absurd hk (Nat.not_lt.mpr hlen)

/-! ## The grammar -/

/-- Whether characters are digits with an optional point: a run of digits alone, a run with a point
behind it and perhaps more digits, or a point with a run behind it. -/
inductive IsMantissa : List Char → (whole fraction : List Char) → Prop
  | whole {ds : List Char} (h : IsRun ds) : IsMantissa ds ds []
  | pointed {ds fs : List Char} (h : IsRun ds) (hfraction : ∀ c ∈ fs, c.isDigit = true) :
    IsMantissa (ds ++ '.' :: fs) ds fs
  | fraction {fs : List Char} (h : IsRun fs) : IsMantissa ('.' :: fs) [] fs

/-- Whether characters are an optional exponent: a mark, an optional sign and a run of digits. -/
inductive IsExponent : List Char → Int → Prop
  | none : IsExponent [] 0
  | marked {mark : Char} {s ds : List Char} {negative : Bool} (hmark : mark = 'e' ∨ mark = 'E')
    (hsign : IsSign s negative) (h : IsRun ds) :
    IsExponent (mark :: (s ++ ds)) (signed negative (digitsValue ds))

theorem IsExponent.endsRun {x : List Char} {e : Int} (h : IsExponent x e) : EndsRun x := by
  cases h with
  | none => exact endsRun_nil
  | marked hmark =>
    apply endsRun_cons
    rcases hmark with rfl | rfl <;> rfl

/-- An exponent is no fraction. -/
theorem IsExponent.readFraction {x : List Char} {e : Int} (h : IsExponent x e) :
    Double.readFraction x = ([], x) := by
  cases h with
  | none => rfl
  | marked hmark => rcases hmark with rfl | rfl <;> rfl

theorem IsMantissa.ne_nil {m whole fraction : List Char} (h : IsMantissa m whole fraction) :
    m ≠ [] := by
  cases h with
  | whole h => exact h.ne_nil
  | pointed | fraction => simp

theorem IsMantissa.unsigned_append {m whole fraction : List Char} (h : IsMantissa m whole fraction)
    (rest : List Char) : Unsigned (m ++ rest) := by
  cases h with
  | whole h => exact h.unsigned_append rest
  | pointed h =>
    rw [List.append_assoc]
    exact h.unsigned_append _
  | fraction => exact unsigned_cons _ (by decide) (by decide)

/-! ## The reader -/

/-- The exponents that are read to the end of the text. -/
theorem readExponent_eq_nil {x : List Char} {e : Int} :
    readExponent x = (e, []) ↔ IsExponent x e := by
  constructor
  · intro h
    cases x with
    | nil =>
      obtain rfl : 0 = e := congrArg Prod.fst h
      exact .none
    | cons mark rest =>
      simp only [readExponent] at h
      split at h
      · rename_i hmark
        obtain ⟨s, hsign, hrest⟩ := exists_isSign rest
        generalize splitSign rest = signed at h hsign hrest
        obtain ⟨hdigits, hd⟩ := splitDigits_eq signed.2
        generalize splitDigits signed.2 = run at h hdigits hd
        split at h
        · exact absurd (congrArg Prod.snd h) (by simp)
        · rename_i hne
          obtain ⟨rfl, hnil⟩ := Prod.mk.inj h
          rw [hnil, List.append_nil] at hdigits
          rw [hrest, hdigits]
          exact .marked hmark hsign ⟨by simpa using hne, hd⟩
      · exact absurd (congrArg Prod.snd h) (by simp)
  · intro h
    cases h with
    | none => rfl
    | @marked mark s ds negative hmark hsign hds =>
      have hsplit := hsign.splitSign_append (hds.unsigned_append [])
      rw [List.append_nil] at hsplit
      have hne : ds.isEmpty = false := List.isEmpty_eq_false_iff.mpr hds.ne_nil
      simp only [readExponent, hmark, if_true, hsplit, splitDigits_self hds.digits, hne]
      rfl

/-- A literal is taken apart into the digits on both sides of the point and the exponent. -/
theorem exists_splitDigits {m whole fraction x : List Char} {e : Int}
    (hm : IsMantissa m whole fraction) (hx : IsExponent x e) :
    ∃ behind, splitDigits (m ++ x) = (whole, behind) ∧ Double.readFraction behind = (fraction, x) ∧
      readExponent x = (e, []) ∧ (whole.isEmpty && fraction.isEmpty) = false := by
  have hexponent := readExponent_eq_nil.mpr hx
  cases hm with
  | whole h => exact ⟨x, splitDigits_append h.digits hx.endsRun, hx.readFraction, hexponent,
      by simp [h.ne_nil]⟩
  | pointed h hfraction =>
    have hpoint : EndsRun ('.' :: (fraction ++ x)) := endsRun_cons _ rfl
    refine ⟨'.' :: (fraction ++ x), ?_, splitDigits_append hfraction hx.endsRun, hexponent,
      by simp [h.ne_nil]⟩
    rw [List.append_assoc, List.cons_append]
    exact splitDigits_append h.digits hpoint
  | fraction h => exact ⟨'.' :: (fraction ++ x), rfl, splitDigits_append h.digits hx.endsRun,
      hexponent, by simp [h.ne_nil]⟩

/-- Text that is taken apart without a rest, and with digits, is a literal. -/
theorem exists_isMantissa (cs : List Char)
    (hsome : ¬((splitDigits cs).1.isEmpty &&
      (Double.readFraction (splitDigits cs).2).1.isEmpty) = true) :
    ∃ m, IsMantissa m (splitDigits cs).1 (Double.readFraction (splitDigits cs).2).1 ∧
      cs = m ++ (Double.readFraction (splitDigits cs).2).2 := by
  obtain ⟨hwhole, hw⟩ := splitDigits_eq cs
  generalize (splitDigits cs).1 = whole at *
  generalize (splitDigits cs).2 = behind at *
  rw [hwhole]
  cases behind with
  | nil => exact ⟨whole, .whole ⟨by simpa [Double.readFraction] using hsome, hw⟩, rfl⟩
  | cons c rest =>
    by_cases hpoint : c = '.'
    · subst hpoint
      obtain ⟨hfraction, hf⟩ := splitDigits_eq rest
      simp only [Double.readFraction] at hsome ⊢
      by_cases hne : whole = []
      · subst hne
        exact ⟨_, .fraction ⟨by simpa using hsome, hf⟩,
          by rw [List.nil_append, List.cons_append, ← hfraction]⟩
      · exact ⟨_, .pointed ⟨hne, hw⟩ hf,
          by rw [List.append_assoc, List.cons_append, ← hfraction]⟩
    · have hnone : Double.readFraction (c :: rest) = ([], c :: rest) := by
        simp [Double.readFraction, hpoint]
      rw [hnone] at hsome ⊢
      exact ⟨whole, .whole ⟨by simpa using hsome, hw⟩, rfl⟩

theorem readDecimal?_append {m whole fraction x : List Char} {e : Int}
    (hm : IsMantissa m whole fraction) (hx : IsExponent x e) :
    readDecimal? (m ++ x) =
      some ⟨digitsValue (whole ++ fraction), e - fraction.length⟩ := by
  obtain ⟨behind, hwhole, hfraction, hexponent, hsome⟩ := exists_splitDigits hm hx
  simp only [readDecimal?, hwhole, hfraction, hexponent, hsome]
  rfl

/-- Exactly the literals of the grammar are read: as the digits on both sides of the point, and the
exponent less the count of those behind it. -/
theorem readDecimal?_eq_some {cs : List Char} {d : DecimalLiteral} :
    readDecimal? cs = some d ↔
      ∃ m whole fraction x e, IsMantissa m whole fraction ∧ IsExponent x e ∧ cs = m ++ x ∧
        d = ⟨digitsValue (whole ++ fraction), e - fraction.length⟩ := by
  constructor
  · intro h
    simp only [readDecimal?] at h
    split at h
    · exact absurd h (by simp)
    rename_i hsome
    split at h
    · rename_i hend
      obtain ⟨m, hm, hcs⟩ := exists_isMantissa cs hsome
      have hx := readExponent_eq_nil.mp (Prod.ext rfl (List.isEmpty_iff.mp hend))
      exact ⟨m, _, _, _, _, hm, hx, hcs, (Option.some.inj h).symm⟩
    · exact absurd h (by simp)
  · rintro ⟨m, whole, fraction, x, e, hm, hx, rfl, rfl⟩
    exact readDecimal?_append hm hx

/-! ## Numbers of literals -/

/-- Text that is a decimal literal behind its sign is read as one: it is not empty, no word, and
has no mark of another base. -/
theorem ofTrimmed_of_readDecimal? {cs : List Char} {d : DecimalLiteral}
    (h : readDecimal? (splitSign cs).2 = some d) :
    ofTrimmed cs = ofDecimal (splitSign cs).1 d.digits d.exponent := by
  have hbase {mark : Char} (digits : List Char) (hdigit : mark.isDigit = false)
      (hpoint : mark ≠ '.') (hsmall : mark ≠ 'e') (hcapital : mark ≠ 'E') :
      readDecimal? (splitSign ('0' :: mark :: digits)).2 = none := by
    simp [readDecimal?, splitSign, splitDigits, hdigit, readFraction, hpoint, readExponent, hsmall,
      hcapital]
  have hempty : readDecimal? (splitSign []).2 = none := rfl
  rw [ofTrimmed.eq_def]
  split
  · exact absurd (h.symm.trans hempty) (by simp)
  -- the marks of the bases 16, 8 and 2, small and capital
  iterate 6
    exact absurd (h.symm.trans (hbase _ rfl (by decide) (by decide) (by decide))) (by simp)
  · have hword : (splitSign cs).2 ≠ "Infinity".toList := by
      intro hword
      have hnone : readDecimal? "Infinity".toList = none := by decide
      rw [hword] at h
      exact absurd (h.symm.trans hnone) (by simp)
    simp only [if_neg hword, h]

/-- A literal with its sign has no blanks. -/
theorem isBlank_literal {s m x whole fraction : List Char} {negative : Bool} {e : Int}
    (hs : IsSign s negative) (hm : IsMantissa m whole fraction) (hx : IsExponent x e) :
    ∀ c ∈ s ++ (m ++ x), isBlank c = false := by
  have hmantissa : ∀ c ∈ m, isBlank c = false := by
    cases hm with
    | whole h => exact fun c hc => isBlank_of_isDigit (h.digits c hc)
    | pointed h hfraction =>
      intro c hc
      rcases List.mem_append.mp hc with hc | hc
      · exact isBlank_of_isDigit (h.digits c hc)
      rcases List.mem_cons.mp hc with rfl | hc
      · decide
      · exact isBlank_of_isDigit (hfraction c hc)
    | fraction h =>
      intro c hc
      rcases List.mem_cons.mp hc with rfl | hc
      · decide
      · exact isBlank_of_isDigit (h.digits c hc)
  have hexponent : ∀ c ∈ x, isBlank c = false := by
    cases hx with
    | none => simp
    | marked hmark hsign h =>
      intro c hc
      rcases List.mem_cons.mp hc with rfl | hc
      · rcases hmark with rfl | rfl <;> decide
      rcases List.mem_append.mp hc with hc | hc
      · exact hsign.isBlank c hc
      · exact isBlank_of_isDigit (h.digits c hc)
  intro c hc
  rcases List.mem_append.mp hc with hc | hc
  · exact hs.isBlank c hc
  rcases List.mem_append.mp hc with hc | hc
  · exact hmantissa c hc
  · exact hexponent c hc

/-- The number that a literal with a sign denotes. -/
theorem ofText_literal {s m x whole fraction : List Char} {negative : Bool} {e : Int}
    (hs : IsSign s negative) (hm : IsMantissa m whole fraction) (hx : IsExponent x e) :
    ofText (String.ofList (s ++ (m ++ x))) =
      ofDecimal negative (digitsValue (whole ++ fraction)) (e - fraction.length) := by
  have hsplit := hs.splitSign_append (hm.unsigned_append x)
  have hread : readDecimal? (splitSign (s ++ (m ++ x))).2 =
      some ⟨digitsValue (whole ++ fraction), e - fraction.length⟩ := by
    rw [hsplit]
    exact readDecimal?_append hm hx
  rw [ofText, String.toList_ofList, trimChars_of_no_blank (isBlank_literal hs hm hx),
    ofTrimmed_of_readDecimal? hread, hsplit]

end Double

end WarehouseRows
