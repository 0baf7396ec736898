import WarehouseRows.Proofs.DecimalLiterals
import WarehouseRows.Proofs.DecimalValue
import WarehouseRows.Proofs.Overflow

/-!
# Decimals that are made

A decimal of parts or of bytes has a scale that is checked, and rescaling keeps to integers as well.
The scale of text is not checked: it is a difference of binary64 numbers, and an exponent beyond
them makes it infinite. So whatever calls make decimals, one after another and of one another, an
infinite scale comes from the exponent of a text, and every such text gives one. Without such texts
no decimal fails for its scale; a decimal of such a text has no text, and is compared with no other.

## Main definitions

* `Decimal.IsPlaced`: the decimals of finitely many places.
* `Decimal.Literal.IsPlaced`: the literals with such a scale.
* `Decimal.Call`, `Decimal.Call.run`: calls that make decimals, and what a sequence of them makes.

## Main results

* `Decimal.Literal.isPlaced_iff`: the exponents that give finitely many places.
* `Decimal.Call.isPlaced_of_mem_run`: what a sequence of calls preserves.
* `Decimal.scale_isInteger_iff`: the sequences of calls after which every scale is an integer.
-/

namespace WarehouseRows

/-! ## Scales of texts -/

/-- The numbers that are integers are the whole ones. -/
theorem Whole.exists_ofDouble?_iff {x : Double} :
    (∃ n, Whole.ofDouble? x = some n) ↔ ∃ k, x.whole? = some k := by
  unfold Whole.ofDouble?
  split
  · rename_i e
    exact iff_of_true ⟨_, rfl⟩ ⟨0, Double.whole?_of_isZero rfl⟩
  · simp [Option.map_eq_some_iff]

/-- The scale of text has finitely many places if its exponent and the difference are numbers. -/
theorem Scale.exists_ofText_iff {places : Nat} {exponent : Int} :
    (∃ n, Scale.ofText places exponent = .places n) ↔
      ∃ e, (Double.ofInt exponent).whole? = some e ∧
        ((places : Int) - e).natAbs < Double.overflow := by
  simp only [Scale.ofText, ← Double.exists_whole?_ofInt, ← Whole.exists_ofDouble?_iff]
  cases hexponent : (Double.ofInt exponent).whole? with
  | none => simp
  | some e =>
    cases hplaces : Whole.ofDouble? (Double.ofInt (places - e)) with
    | none => simp [hplaces]
    | some n => simp [hplaces]

/-- Beyond the numbers, the sign of an exponent is all that is left of it. -/
theorem Scale.ofText_of_overflow (places : Nat) {exponent : Int}
    (h : Double.overflow ≤ exponent.natAbs) :
    Scale.ofText places exponent = .unbounded (decide (0 < exponent)) := by
  have hnone : (Double.ofInt exponent).whole? = none := by
    apply Option.eq_none_iff_forall_ne_some.mpr
    intro k hk
    exact absurd (Double.exists_whole?_ofInt.mp ⟨k, hk⟩) (Nat.not_lt.mpr h)
  rw [Scale.ofText, hnone]

namespace Decimal

open Text Double

/-- Whether a decimal has finitely many places. -/
def IsPlaced (d : Decimal) : Prop :=
  ∃ n, d.scale = .places n

/-- Whether the scale of a literal has finitely many places: its exponent is rounded to a number,
and so is the count of its digits behind the point less this number. -/
def Literal.IsPlaced (l : Literal) : Prop :=
  ∃ e, (Double.ofInt l.exponent).whole? = some e ∧
    ((l.fraction.length : Int) - e).natAbs < Double.overflow

/-- However many digits there are behind the point, it is the exponent alone that decides. -/
theorem Literal.isPlaced_iff {l : Literal} (h : l.fraction.length < Double.halfUnit) :
    l.IsPlaced ↔ l.exponent.natAbs < Double.overflow := by
  rw [← Double.exists_whole?_ofInt]
  constructor
  · rintro ⟨e, he, -⟩
    exact ⟨e, he⟩
  · rintro ⟨e, he⟩
    refine ⟨e, he, ?_⟩
    have hlargest := Double.natAbs_le_largest (Double.inNormalForm_ofInt _) he
    rw [Double.overflow]
    omega

/-! ## One call -/

theorem isPlaced_of_ofParts {unscaled : Int} {scale : Double} {d : Decimal}
    (h : ofParts unscaled scale = .ok d) : d.IsPlaced := by
  rw [ofParts] at h
  split at h
  · rename_i s hs
    obtain ⟨n, -, rfl⟩ := Option.map_eq_some_iff.mp hs
    obtain rfl := Except.ok.inj h
    exact ⟨n, rfl⟩
  · exact absurd h (by simp)

/-- A decimal of text has finitely many places if its literal has. -/
theorem isPlaced_parse_iff {text : String} {l : Literal} (h : Spells text.toList l) {d : Decimal}
    (hparse : parse text = .ok d) : d.IsPlaced ↔ l.IsPlaced := by
  obtain rfl := Except.ok.inj ((parse_of_spells h).symm.trans hparse)
  exact Scale.exists_ofText_iff

/-- Only texts of the grammar are read, so the literal of a decimal of text is there. -/
theorem isPlaced_of_parse {text : String} (h : ∀ l, Spells text.toList l → l.IsPlaced)
    {d : Decimal} (hparse : parse text = .ok d) : d.IsPlaced := by
  by_cases hspells : ∃ l, Spells text.toList l
  · obtain ⟨l, hl⟩ := hspells
    exact (isPlaced_parse_iff hl hparse).mpr (h l hl)
  · obtain ⟨e, herror, -⟩ := exists_parse_error hspells
    exact absurd (herror.symm.trans hparse) (by simp)

/-- An infinite scale is not reached from one of finitely many places, -/
theorem setScale_to_unbounded (u : Int) (n : Whole) (negative : Bool) :
    (ofPlaces u n).setScale (.unbounded negative) = .error (noIntegerPower (.infinity false)) := by
  cases negative <;> rfl

/-- nor the other way round. -/
theorem setScale_unbounded (u : Int) (negative : Bool) (t : Whole) :
    setScale ⟨u, .unbounded negative⟩ (.places t) = .error (noIntegerPower (.infinity false)) := by
  cases negative <;> rfl

/-- Rescaling a decimal of finitely many places gives one again: to an infinite scale the way is too
far, and at no other number a decimal is made of parts. -/
theorem isPlaced_of_setScaleNumber {d e : Decimal} {scale : Double} (hd : d.IsPlaced)
    (h : d.setScaleNumber scale = .ok e) : e.IsPlaced := by
  obtain ⟨unscaled, _⟩ := d
  obtain ⟨n, rfl⟩ := hd
  rw [setScaleNumber] at h
  split at h
  · rename_i target _
    cases target with
    | unbounded negative =>
      exact absurd ((setScale_to_unbounded unscaled n negative).symm.trans h) (by simp)
    | places t =>
      obtain ⟨k, s, rfl, -⟩ := exists_of_setScale h
      exact ⟨s, rfl⟩
  · obtain ⟨k, -, hmade⟩ := Outcome.bind_eq_ok.mp h
    exact isPlaced_of_ofParts (Outcome.mapError_eq_ok.mp hmade)

/-! ## Sequences of calls -/

/-- The calls that make a decimal. What is rescaled is a decimal that was made before. -/
inductive Call where
  | ofParts (unscaled : Int) (scale : Double)
  | parse (text : String)
  | ofBytes (bytes : List UInt8) (scale : Double)
  | setScale (index : Nat) (scale : Double)

namespace Call

/-- The decimal that a call makes, if it does not fail. -/
def result? (made : List Decimal) : Call → Option Decimal
  | .ofParts unscaled scale => (Decimal.ofParts unscaled scale).toOption
  | .parse text => (Decimal.parse text).toOption
  | .ofBytes bytes scale => (Decimal.ofBytes bytes scale).toOption
  | .setScale index scale => made[index]?.bind fun d => (d.setScaleNumber scale).toOption

/-- The decimals that there are after a sequence of calls; a call that fails makes none. -/
def run (made : List Decimal) : List Call → List Decimal
  | [] => made
  | call :: rest => run (made ++ (call.result? made).toList) rest

/-- Whether a call does not make an infinite scale of text. -/
def IsPlaced : Call → Prop
  | .parse text => ∀ l, Spells text.toList l → l.IsPlaced
  | _ => True

/-- A call makes a decimal of finitely many places, if those before have finitely many. -/
theorem isPlaced_of_result? {made : List Decimal} (hmade : ∀ d ∈ made, d.IsPlaced) {call : Call}
    (hcall : call.IsPlaced) {d : Decimal} (h : call.result? made = some d) : d.IsPlaced := by
  cases call with
  | ofParts unscaled scale => exact isPlaced_of_ofParts (Outcome.toOption_eq_some.mp h)
  | parse text => exact isPlaced_of_parse hcall (Outcome.toOption_eq_some.mp h)
  | ofBytes bytes scale => exact isPlaced_of_ofParts (Outcome.toOption_eq_some.mp h)
  | setScale index scale =>
    obtain ⟨before, hbefore, hset⟩ := Option.bind_eq_some_iff.mp h
    exact isPlaced_of_setScaleNumber (hmade before (List.mem_of_getElem? hbefore))
      (Outcome.toOption_eq_some.mp hset)

/-- So do all calls of a sequence. -/
theorem isPlaced_of_mem_run {calls : List Call} (hcalls : ∀ call ∈ calls, call.IsPlaced)
    {made : List Decimal} (hmade : ∀ d ∈ made, d.IsPlaced) : ∀ d ∈ run made calls, d.IsPlaced := by
  induction calls generalizing made with
  | nil => exact hmade
  | cons call rest ih =>
    obtain ⟨hcall, hrest⟩ := List.forall_mem_cons.mp hcalls
    apply ih hrest
    intro d hd
    rcases List.mem_append.mp hd with hd | hd
    · exact hmade d hd
    · exact isPlaced_of_result? hmade hcall (Option.mem_toList.mp hd)

/-- A decimal that was made stays. -/
theorem mem_run_of_mem (calls : List Call) {made : List Decimal} {d : Decimal} (h : d ∈ made) :
    d ∈ run made calls := by
  induction calls generalizing made with
  | nil => exact h
  | cons call rest ih => exact ih (List.mem_append_left _ h)

/-- What a text gives does not depend on the calls before. -/
theorem mem_run_of_parse {text : String} {d : Decimal} (h : Decimal.parse text = .ok d)
    {calls : List Call} (hcall : .parse text ∈ calls) (made : List Decimal) :
    d ∈ run made calls := by
  induction calls generalizing made with
  | nil => exact absurd hcall List.not_mem_nil
  | cons call rest ih =>
    rcases List.mem_cons.mp hcall with rfl | hrest
    · apply mem_run_of_mem rest
      apply List.mem_append_right
      exact Option.mem_toList.mpr (Outcome.toOption_eq_some.mpr h)
    · exact ih hrest _

/-- After a sequence of calls every scale is an integer just if each text among them has a literal
of finitely many places. -/
theorem isPlaced_run_iff {calls : List Call} :
    (∀ d ∈ run [] calls, d.IsPlaced) ↔ ∀ call ∈ calls, call.IsPlaced := by
  constructor
  · intro h call hcall
    cases call with
    | parse text =>
      intro l hl
      have hparse := parse_of_spells hl
      exact (isPlaced_parse_iff hl hparse).mp (h _ (mem_run_of_parse hparse hcall []))
    | _ => exact trivial
  · intro h
    exact isPlaced_of_mem_run h (by simp)

end Call

/-! ## Failures for a scale -/

/-- What is said where a power has no integer exponent is said nowhere else. -/
theorem range_ne_noIntegerPower {message : String} (h : message.toList.head? ≠ some 'T')
    (x : Double) : Failure.range message ≠ noIntegerPower x := by
  intro heq
  apply h
  have hmessage : message = "The number " ++ x.text ++ " cannot be converted to a BigInt " ++
      "because it is not an integer" := (Failure.other.inj heq).2
  simp [hmessage, String.toList_append]

theorem tooLarge_ne (x : Double) : tooLarge ≠ noIntegerPower x :=
  range_ne_noIntegerPower (by decide) x

theorem tooLong_ne (x : Double) : tooLong ≠ noIntegerPower x :=
  range_ne_noIntegerPower (by decide) x

theorem text_ne_noIntegerPower (u : Int) (m : Whole) (x : Double) :
    (ofPlaces u m).text ≠ .error (noIntegerPower x) := by
  simp only [text]
  split
  · simpa using tooLong_ne x
  · rw [ne_eq, Outcome.map_eq_error]
    exact fun h => tooLarge_ne x (timesPower_eq_error h).symm

theorem digitsLost_ne (decimal target : String) (x : Double) :
    digitsLost decimal target ≠ noIntegerPower x := by
  rw [digitsLost]
  split
  · exact tooLong_ne x
  · simp [noIntegerPower, Failure.range]

/-- A difference that is a number is an integer, so the power has one for its exponent. -/
theorem integerOf_ne_error {gap : Int} (h : gap.natAbs < Double.overflow) (f : Failure) :
    integerOf (.ofInt gap) ≠ .error f := by
  obtain ⟨n, hn⟩ := Double.exists_whole?_ofInt.mpr h
  simp [integerOf, hn]

theorem raised_ne_noIntegerPower (u : Int) {gap : Int} (h : gap.natAbs < Double.overflow)
    (x : Double) : raised u (.ofInt gap) ≠ .error (noIntegerPower x) := by
  intro hfailed
  rcases raised_eq_error hfailed with hgap | hlarge
  · exact integerOf_ne_error h _ hgap
  · exact tooLarge_ne x hlarge.symm

theorem lowered_ne_noIntegerPower (u : Int) (m : Whole) {gap : Int}
    (h : gap.natAbs < Double.overflow) (target : String) (x : Double) :
    (ofPlaces u m).lowered (.ofInt gap) target ≠ .error (noIntegerPower x) := by
  intro hfailed
  rcases lowered_eq_error hfailed with hgap | hlarge | ⟨zeros, -, -, -, htext | ⟨text, hlost⟩⟩
  · exact integerOf_ne_error h _ hgap
  · exact tooLarge_ne x hlarge.symm
  · exact text_ne_noIntegerPower u m x htext
  · exact digitsLost_ne text target x hlost.symm

theorem compare_ne_noIntegerPower (u v : Int) {m n : Whole}
    (h : (m.toInt - n.toInt).natAbs < Double.overflow) (x : Double) :
    (ofPlaces u m).compare (ofPlaces v n) ≠ .error (noIntegerPower x) := by
  rw [compare_eq]
  intro hfailed
  rcases Outcome.bind_eq_error.mp hfailed with hleft | ⟨k, -, hright⟩
  · exact raised_ne_noIntegerPower u (by omega) x hleft
  · exact raised_ne_noIntegerPower v (by omega) x (Outcome.map_eq_error.mp hright)

theorem setScale_ne_noIntegerPower (u : Int) {m t : Whole}
    (h : (m.toInt - t.toInt).natAbs < Double.overflow) (x : Double) :
    (ofPlaces u m).setScale (.places t) ≠ .error (noIntegerPower x) := by
  rcases Int.lt_trichotomy m.toInt t.toInt with hlt | heq | hgt
  · rw [setScale_of_lt u hlt, ne_eq, Outcome.map_eq_error]
    exact raised_ne_noIntegerPower u (by omega) x
  · rw [setScale_of_eq u heq]
    simp
  · rw [setScale_of_gt u hgt, ne_eq, Outcome.map_eq_error]
    exact lowered_ne_noIntegerPower u m (by omega) _ x

/-- Without finitely many places there is no text. -/
theorem text_unbounded (u : Int) (negative : Bool) :
    text ⟨u, .unbounded negative⟩ =
      .error (if negative then noIntegerPower (.infinity false) else tooLong) := by
  cases negative <;> rfl

/-- A decimal without finitely many places is compared with no decimal that has them. -/
theorem compare_unbounded (u v : Int) (negative : Bool) (n : Whole) :
    compare ⟨u, .unbounded negative⟩ (ofPlaces v n) = .error (noIntegerPower (.infinity false)) ∧
      (ofPlaces v n).compare ⟨u, .unbounded negative⟩ =
        .error (noIntegerPower (.infinity false)) := by
  cases negative with
  | false => exact ⟨rfl, rfl⟩
  | true =>
    refine ⟨rfl, ?_⟩
    -- here the finitely many places are more, and the other decimal fails to reach them
    have hown : (ofPlaces v n).setScale (.places n) = .ok (ofPlaces v n) := setScale_of_eq v rfl
    have hlarger : largerScale (.places n) (.unbounded true) = .places n := rfl
    simp only [compare, hlarger, hown, Outcome.ok_bind]
    rfl

/-! ## Every scale -/

/-- After whatever calls, every scale is an integer just if each text among them has a literal of
finitely many places; and the literals without are those of which the exponent is no number. A
decimal of finitely many places never fails for want of an integer power, where a difference of two
scales is a number as well; a decimal without fails for it, or has a text that is too long. -/
theorem scale_isInteger_iff (calls : List Call) :
    ((∀ d ∈ Call.run [] calls, d.IsPlaced) ↔
      ∀ text, Call.parse text ∈ calls → ∀ l, Spells text.toList l → l.IsPlaced) ∧
    (∀ l : Literal, l.fraction.length < Double.halfUnit →
      (l.IsPlaced ↔ l.exponent.natAbs < Double.overflow)) ∧
    (∀ (u : Int) (m : Whole) (x : Double), (ofPlaces u m).text ≠ .error (noIntegerPower x) ∧
      ∀ (v : Int) (n : Whole), (m.toInt - n.toInt).natAbs < Double.overflow →
        (ofPlaces u m).compare (ofPlaces v n) ≠ .error (noIntegerPower x) ∧
        (ofPlaces u m).setScale (.places n) ≠ .error (noIntegerPower x)) ∧
    ∀ (u : Int) (negative : Bool),
      text ⟨u, .unbounded negative⟩ =
        .error (if negative then noIntegerPower (.infinity false) else tooLong) ∧
      ∀ (v : Int) (n : Whole),
        compare ⟨u, .unbounded negative⟩ (ofPlaces v n) =
          .error (noIntegerPower (.infinity false)) ∧
        (ofPlaces v n).compare ⟨u, .unbounded negative⟩ =
          .error (noIntegerPower (.infinity false)) ∧
        setScale ⟨u, .unbounded negative⟩ (.places n) =
          .error (noIntegerPower (.infinity false)) := by
  refine ⟨?_, ?_, ?_, ?_⟩
  · rw [Call.isPlaced_run_iff]
    constructor
    · intro h text hcall
      exact h _ hcall
    · intro h call hcall
      cases call with
      | parse text => exact h text hcall
      | _ => exact trivial
  · intro l h
    exact Literal.isPlaced_iff h
  · intro u m x
    refine ⟨text_ne_noIntegerPower u m x, ?_⟩
    intro v n hdifference
    exact ⟨compare_ne_noIntegerPower u v hdifference x,
      setScale_ne_noIntegerPower u hdifference x⟩
  · intro u negative
    refine ⟨text_unbounded u negative, ?_⟩
    intro v n
    obtain ⟨hleft, hright⟩ := compare_unbounded u v negative n
    exact ⟨hleft, hright, setScale_unbounded u negative n⟩

/-- The text `1.5e1` has no places, and what it is rescaled to has three. -/
theorem scale_isInteger_iff_tenfold :
    let calls : List Call := [.parse "1.5e1", .setScale 0 (.ofInt 3)]
    let l : Literal := ⟨false, ['1'], ['5'], 1⟩
    (∀ d ∈ Call.run [] calls, d.IsPlaced) ∧
      l.fraction.length < Double.halfUnit ∧ l.IsPlaced ∧
      ((0 : Int) - 3).natAbs < Double.overflow ∧
      (ofPlaces 15 (.ofInt 0)).setScale (.places (.ofInt 3)) ≠ .error (noIntegerPower .nan) := by
  intro calls l
  obtain ⟨hcalls, hliterals, hplaces, -⟩ := scale_isInteger_iff calls
  have hshort : l.fraction.length < Double.halfUnit := by decide +kernel
  have hplaced : l.IsPlaced := (hliterals l hshort).mpr (by decide +kernel)
  have hdifference : ((0 : Int) - 3).natAbs < Double.overflow := by decide +kernel
  refine ⟨hcalls.mpr ?_, hshort, hplaced, hdifference,
    ((hplaces 15 (.ofInt 0) .nan).2 15 (.ofInt 3) hdifference).2⟩
  intro text hcall l' hl
  obtain rfl : text = "1.5e1" := by simpa [calls] using hcall
  have hread : readLiteral? "1.5e1".toList = some l := rfl
  obtain rfl := Option.some.inj (hread.symm.trans (readLiteral?_eq_some.mpr hl))
  exact hplaced

/-- An exponent of 310 digits is no number: its text is read all the same, with an infinite scale,
at which no decimal is made of parts. There is no text of the decimal that is read. -/
theorem parse_hugeExponent :
    let text := "1e1" ++ String.ofList (List.replicate 309 '0')
    let d : Decimal := ⟨1, .unbounded true⟩
    parse text = .ok d ∧ d ∈ Call.run [] [.parse text] ∧ ¬d.IsPlaced ∧
      ofParts 1 d.scale.toDouble = .error (notWhole "-Infinity") ∧
      d.text = .error (noIntegerPower (.infinity false)) := by
  intro text d
  generalize hzeros : List.replicate 309 '0' = zeros
  have hchars : text.toList = ['1'] ++ 'e' :: '1' :: zeros := by
    simp only [text, String.toList_append, String.toList_ofList, hzeros]
    rfl
  obtain ⟨e, hexponent, hpos, hoverflow⟩ :
      ∃ e, IsExponent ('e' :: '1' :: zeros) e ∧ 0 < e ∧ Double.overflow ≤ e.natAbs := by
    have hdigits : IsRun ('1' :: zeros) := by
      rw [← hzeros]
      decide +kernel
    refine ⟨_, .marked (Or.inl rfl) .none hdigits, ?_⟩
    rw [← hzeros]
    decide +kernel
  have hone : IsRun ['1'] := by decide
  have hspells : Spells text.toList ⟨false, ['1'], [], e⟩ := by
    rw [hchars]
    exact (IsLiteral.mk .none (.whole hone) hexponent).spells
  have hparse : parse text = .ok d := by
    rw [parse_of_spells hspells, Scale.ofText_of_overflow _ hoverflow]
    simp only [hpos, decide_true]
    rfl
  refine ⟨hparse, Call.mem_run_of_parse hparse (List.mem_singleton.mpr rfl) [], ?_, rfl, rfl⟩
  rintro ⟨n, hn⟩
  exact absurd hn (by simp [d])

end Decimal

end WarehouseRows
