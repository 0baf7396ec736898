import WarehouseRows.Proofs.ScalarText

/-!
# Default texts and the readers of cells

A date, a time, a decimal or a number has one text, or several that its reader takes alike. Bytes,
instants and dates with a time have two that differ: the fixed format of cells, and the default text
that a value shows of itself. The readers of cells are made for the first. Of the second they take a
date with a time only if its time happens to be spelled out, bytes only if there are none, and no
instant.

## Main definitions

* `LocalTime.IsSpelledOut`: the times whose default text has the layout of the fixed format.
-/

namespace WarehouseRows

/-! ## Times of day -/

namespace LocalTime

/-- The fraction of a second is read back, however many digits show it. -/
theorem readFraction?_fractionText {nano : Int} (h0 : 0 ≤ nano) (h1 : nano < nanosPerSecond) :
    readFraction? (fractionText nano) = some nano.natAbs := by
  simp only [nanosPerSecond] at h1
  rw [fractionText]
  split
  · rename_i hzero
    subst hzero
    rfl
  · split
    · rw [readFraction?_pad (by decide) (by decide) (by omega)]
      congr 1
      omega
    · split
      · rw [readFraction?_pad (by decide) (by decide) (by omega)]
        congr 1
        omega
      · rw [readFraction?_pad (by decide) (by decide) (by omega)]
        congr 1
        omega

/-- The default text of a time is read as that time. -/
theorem parse_text {t : LocalTime} (h : t.InDay) : parse t.text = .ok t.plain := by
  have hnano : (t.nano.toInt.natAbs : Int) = t.nano.toInt := Int.natAbs_of_nonneg h.nano.1
  have hbound : t.nano.toInt.natAbs < nanosPerSecond := by
    have := h.nano
    omega
  have hread {seconds : List Char}
      (hseconds : readSeconds? seconds = some (t.second.toInt.natAbs, t.nano.toInt.natAbs)) :
      ofChars? (Instant.pad 2 t.hour.toInt ++
        ':' :: (Instant.pad 2 t.minute.toInt ++ seconds)) = some t.plain := by
    rw [ofChars?_append h hseconds hbound, hnano]
    rfl
  rw [parse, text, String.toList_ofList, chars]
  simp only [List.append_assoc, List.cons_append]
  by_cases hzero : t.second.toInt = 0 ∧ t.nano.toInt = 0
  · rw [if_pos hzero, hread]
    rw [hzero.1, hzero.2]
    rfl
  · rw [if_neg hzero,
      hread (readSeconds?_append h (readFraction?_fractionText h.nano.1 h.nano.2))]

/-- Whether the default text of a time has the layout of the fixed format: it shows the seconds, and
a fraction of six digits or none. -/
def IsSpelledOut (t : LocalTime) : Prop :=
  (t.nano.toInt = 0 → t.second.toInt ≠ 0) ∧ (t.nano.toInt % 1000000 = 0 → t.nano.toInt = 0)

instance (t : LocalTime) : Decidable t.IsSpelledOut :=
  inferInstanceAs (Decidable (_ ∧ _))

theorem chars_of_isSpelledOut {t : LocalTime} (hmicro : t.nano.toInt % 1000 = 0)
    (h : t.IsSpelledOut) : t.chars = t.formatChars := by
  have hseconds : ¬ (t.second.toInt = 0 ∧ t.nano.toInt = 0) := fun hzero => h.1 hzero.2 hzero.1
  have hfraction : fractionText t.nano.toInt =
      if t.nano.toInt = 0 then [] else '.' :: Instant.pad 6 (t.nano.toInt / 1000) := by
    rw [fractionText]
    by_cases hzero : t.nano.toInt = 0
    · rw [if_pos hzero, if_pos hzero]
    · rw [if_neg hzero, if_neg hzero, if_neg fun hmilli => hzero (h.2 hmilli), if_pos hmicro]
  simp only [chars, if_neg hseconds, formatChars, hfraction, List.append_assoc, List.cons_append]

/-- The other times of whole microseconds leave out their seconds, or the last three digits of their
fraction. -/
theorem length_chars_of_not_isSpelledOut {t : LocalTime} (hday : t.InDay)
    (h : ¬ t.IsSpelledOut) : t.chars.length = 5 ∨ t.chars.length = 12 := by
  have hh : (Instant.pad 2 t.hour.toInt).length = 2 :=
    Instant.length_pad (by decide) (by have := hday.hour; omega)
  have hm : (Instant.pad 2 t.minute.toInt).length = 2 :=
    Instant.length_pad (by decide) (by have := hday.minute; omega)
  have hs : (Instant.pad 2 t.second.toInt).length = 2 :=
    Instant.length_pad (by decide) (by have := hday.second; omega)
  by_cases hzero : t.nano.toInt = 0
  · have hsecond : t.second.toInt = 0 :=
      Decidable.not_not.mp fun hsecond => h ⟨fun _ => hsecond, fun _ => hzero⟩
    left
    simp [chars, hsecond, hzero, hh, hm]
  · have hmilli : t.nano.toInt % 1000000 = 0 := Decidable.not_not.mp fun hmilli =>
      h ⟨fun hnano => absurd hnano hzero, fun hnano => absurd hnano hmilli⟩
    have hf : (Instant.pad 3 (t.nano.toInt / 1000000)).length = 3 := by
      have hnano := hday.nano
      simp only [nanosPerSecond] at hnano
      exact Instant.length_pad (by decide) (by omega)
    right
    simp [chars, fractionText, hzero, hmilli, hh, hm, hs, hf]

end LocalTime

/-! ## Dates with a time of day -/

namespace LocalDateTime

/-- The default text of a date with a time is read if the time is spelled out, -/
theorem parseFixed_text {x : LocalDateTime} (h : x.IsFixable) (htime : x.time.IsSpelledOut) :
    parseFixed x.text = .ok x.plain := by
  have htext : x.text = x.format := by
    rw [text, format, LocalTime.chars_of_isSpelledOut h.micro htime]
  rw [htext, parseFixed_format h]

/-- and it is refused otherwise. -/
theorem parseFixed_text_eq_error {x : LocalDateTime} (h : x.IsFixable)
    (htime : ¬ x.time.IsSpelledOut) :
    parseFixed x.text = .error (unreadableAs "a DATETIME" x.text) := by
  obtain ⟨hdate, _⟩ := fits_date h.real h.year
  have hfixed : isFixed (x.date.chars ++ 'T' :: x.time.chars) = false := by
    rw [isFixed_eq]
    rcases LocalTime.length_chars_of_not_isSpelledOut h.inDay htime with hlen | hlen <;>
      simp [hdate, hlen]
  rw [parseFixed, text, String.toList_ofList, hfixed, if_neg Bool.false_ne_true]

end LocalDateTime

/-! ## Bytes -/

namespace Base64

/-- Text is read in groups of four characters, of the alphabet or the padding. -/
theorem groups_of_decodeChars? {cs : List Char} {back : List UInt8}
    (h : decodeChars? cs = some back) :
    cs.length % 4 = 0 ∧ ∀ c ∈ cs, c = '=' ∨ (valueOf? c).isSome := by
  fun_induction decodeChars? cs generalizing back
  case case1 => simp
  case case2 w x y z rest a b hx hw c d hz hy n ih =>
    obtain ⟨tail, htail, _⟩ := Option.map_eq_some_iff.mp h
    obtain ⟨hlen, hmem⟩ := ih htail
    have hlen' : (w :: x :: y :: z :: rest).length % 4 = 0 := by
      simp only [List.length_cons]
      omega
    exact ⟨hlen', by simpa [hw, hx, hy, hz] using hmem⟩
  case case3 w x y z rest a b hx hw c hz hy hend n =>
    obtain ⟨rfl, rfl⟩ := hend
    simp [hw, hx, hy]
  case case5 w x y z rest a b hx hw hy hend =>
    obtain ⟨rfl, rfl, rfl⟩ := hend
    simp [hw, hx]
  case case4 | case6 | case7 | case8 => exact absurd h (by simp)

/-- The decimals of bytes with commas between them are no base64, unless there are no bytes. -/
theorem eq_nil_of_decode?_decimals {content back : List UInt8}
    (h : decode? (",".intercalate (content.map fun b => Nat.repr b.toNat)) = some back) :
    content = [] := by
  obtain ⟨hlen, hmem⟩ := groups_of_decodeChars? h
  match content with
  | [] => rfl
  | [a] =>
    have hsmall := a.toNat_lt
    have hne := List.length_pos_iff.mpr (Text.repr_ne_nil a.toNat)
    have hdigits : (Nat.repr a.toNat).toList.length ≤ 3 := by
      rw [Nat.toList_repr]
      exact (Nat.length_toDigits_le_iff (by decide) (by decide)).mpr (by omega)
    rw [List.map_singleton, String.intercalate_singleton] at hlen
    omega
  | a :: b :: rest =>
    rw [List.map_cons, List.map_cons, String.intercalate_cons_cons, String.toList_append,
      String.toList_append] at hmem
    have hcomma := hmem ',' (by simp)
    exact absurd hcomma (by decide)

end Base64

/-! ## Instants -/

namespace Double

/-- Digits in front of a hyphen are no number. -/
theorem readDecimal?_hyphen {ds : List Char} (rest : List Char)
    (hd : ∀ c ∈ ds, c.isDigit = true) : readDecimal? (ds ++ '-' :: rest) = none := by
  have hsplit := Text.splitDigits_append hd (Text.endsRun_cons rest (c := '-') rfl)
  simp only [readDecimal?, hsplit, readFraction]
  cases ds <;> rfl

theorem ofTrimmed_hyphen {ds : List Char} (rest : List Char) (hd : ∀ c ∈ ds, c.isDigit = true)
    (hlen : 2 ≤ ds.length) : ofTrimmed (ds ++ '-' :: rest) = .nan := by
  obtain ⟨d, e, behind, rfl⟩ : ∃ d e behind, ds = d :: e :: behind := by
    match ds, hlen with
    | d :: e :: behind, _ => exact ⟨d, e, behind, rfl⟩
  have hsign := Text.splitSign_of_isDigit (e :: behind ++ '-' :: rest) (hd d (by simp))
  have hnone := readDecimal?_hyphen rest hd
  have hword : d :: (e :: behind ++ '-' :: rest) ≠ "Infinity".toList := by
    intro hword
    have hfirst : d = 'I' := (List.cons.inj hword).1
    exact absurd (hd 'I' (by simp [hfirst])) (by decide)
  -- the mark of another base is no digit
  have hmark : ∀ c, c.isDigit = false → ∀ digits, d :: (e :: behind ++ '-' :: rest) ≠
      '0' :: c :: digits := by
    rintro c hc digits hbase
    obtain rfl : e = c := (List.cons.inj (List.cons.inj hbase).2).1
    exact absurd (hd e (by simp)) (by simp [hc])
  rw [List.cons_append] at hnone ⊢
  rw [ofTrimmed.eq_def]
  split
  case h_1 hempty => exact absurd hempty (by simp)
  case h_8 => simp only [hsign, if_neg hword, hnone]
  all_goals exact absurd ‹_› (hmark _ rfl _)

end Double

namespace Instant

/-- The default text of an instant has digits in front of a hyphen, and a letter of its own at the
end. -/
theorem exists_isoText {millis : Int} (h0 : 0 ≤ (clock millis).date.year)
    (h1 : (clock millis).date.year ≤ 9999) :
    ∃ rest, (Instant.at millis).isoText? =
        some (String.ofList (pad 4 (clock millis).date.year ++ '-' :: (rest ++ ['Z']))) ∧
      ∀ c ∈ rest, Text.isBlank c = false := by
  let c := clock millis
  have hyear : isoYear c.date.year = pad 4 c.date.year := if_pos ⟨h0, h1⟩
  refine ⟨pad 2 c.date.month ++ '-' :: pad 2 c.date.day ++ 'T' :: pad 2 c.hour ++ ':' ::
    pad 2 c.minute ++ ':' :: pad 2 c.second ++ '.' :: pad 3 c.milli, ?_, ?_⟩
  · simp only [isoText?]
    rw [hyear]
    simp only [List.append_assoc, List.cons_append]
    rfl
  · have hdigit {width : Nat} {n : Int} : ∀ c ∈ pad width n, Text.isBlank c = false :=
      fun c hc => Text.isBlank_of_isDigit (isDigit_of_mem_pad c hc)
    simp only [List.forall_mem_append, List.forall_mem_cons]
    exact ⟨⟨⟨⟨⟨hdigit, rfl, hdigit⟩, rfl, hdigit⟩, rfl, hdigit⟩, rfl, hdigit⟩, rfl, hdigit⟩

end Instant

/-- No reader of instants takes the default text of one. -/
theorem PrimitiveKind.parseInstant_isoText {millis : Int}
    (h0 : 0 ≤ (Instant.clock millis).date.year) (h1 : (Instant.clock millis).date.year ≤ 9999) :
    ∃ text, (Instant.at millis).isoText? = some text ∧
      parseInstant text = .error (unreadableAs "epoch seconds" text) := by
  obtain ⟨rest, htext, hrest⟩ := Instant.exists_isoText h0 h1
  let year := Instant.pad 4 (Instant.clock millis).date.year
  let cs := year ++ '-' :: (rest ++ ['Z'])
  have hyear : ∀ c ∈ year, c.isDigit = true := Instant.isDigit_of_mem_pad
  have hlen : 4 ≤ year.length := Text.le_length_padNat 4 _
  have hnotUtc : endsInUtc cs = false := by
    rw [← Bool.not_eq_true, endsInUtc, List.isSuffixOf_iff_suffix]
    rintro ⟨front, hfront⟩
    have hends : (front ++ ['U', 'T']).concat 'C' = (year ++ '-' :: rest).concat 'Z' := by
      simpa [cs] using hfront
    exact absurd (List.concat_inj.mp hends).2 (by decide)
  have hblank : ∀ c ∈ cs, Text.isBlank c = false := by
    simp only [cs, List.forall_mem_append, List.forall_mem_cons]
    exact ⟨fun c hc => Text.isBlank_of_isDigit (hyear c hc), rfl, hrest, rfl, by simp⟩
  have htrim : Text.trimChars cs = cs := Text.trimChars_of_no_blank hblank
  have hnan : Double.ofTrimmed cs = .nan := Double.ofTrimmed_hyphen _ hyear (by omega)
  have hempty : cs.isEmpty = false := by
    simp [cs]
  have hne : (String.ofList cs).isEmpty = false := isEmpty_ofList (by simp [cs])
  refine ⟨String.ofList cs, htext, ?_⟩
  rw [parseInstant, hne, if_neg Bool.false_ne_true, String.toList_ofList, hnotUtc,
    if_neg Bool.false_ne_true, Timestamp.parseEpochSeconds, Double.ofText, String.toList_ofList,
    htrim, hempty, if_neg Bool.false_ne_true, hnan]
  rfl

end WarehouseRows
