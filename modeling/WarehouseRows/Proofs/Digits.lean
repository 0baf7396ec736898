import Mathlib.Algebra.Group.Nat.Defs
import WarehouseRows.Text.Blank
import WarehouseRows.Text.Digits

/-!
# Runs of digits

Writing a number in decimal and reading the digits gives the number back, with or
without zeros in front. The readers take off a run of digits from the front of a text;
each law here says what a reader does on a run followed by some rest, so that the laws
of longer formats are put together from those of their parts.
-/

namespace WarehouseRows.Text

/-! ## The value of digits -/

/-- The value is the one that the standard library gives to digits in base ten. -/
theorem digitsValue_eq_ofDigitChars (cs : List Char) :
    digitsValue cs = Nat.ofDigitChars 10 cs 0 := rfl

@[simp] theorem digitsValue_repr (n : Nat) : digitsValue (Nat.repr n).toList = n := by
  rw [digitsValue_eq_ofDigitChars, Nat.toList_repr, Nat.ofDigitChars_ten_toDigits]

/-- Zeros in front do not count. -/
@[simp] theorem digitsValue_padNat (width n : Nat) : digitsValue (padNat width n) = n := by
  rw [digitsValue_eq_ofDigitChars, padNat, padLeft, Nat.toList_repr, Nat.ofDigitChars_append,
    Nat.ofDigitChars_replicate_zero, Nat.mul_zero, Nat.ofDigitChars_ten_toDigits]

/-- Digits behind others count in units of as many places. -/
theorem digitsValue_append (cs ds : List Char) :
    digitsValue (cs ++ ds) = 10 ^ ds.length * digitsValue cs + digitsValue ds := by
  rw [digitsValue_eq_ofDigitChars, Nat.ofDigitChars_append, Nat.ofDigitChars_eq_ofDigitChars_zero]
  rfl

/-- Each zero behind the digits multiplies the value by ten. -/
theorem digitsValue_append_zeros (cs : List Char) (k : Nat) :
    digitsValue (cs ++ List.replicate k '0') = 10 ^ k * digitsValue cs := by
  rw [digitsValue_eq_ofDigitChars, Nat.ofDigitChars_append, Nat.ofDigitChars_replicate_zero]
  rfl

/-! ## What the digits look like -/

theorem isDigit_of_mem_repr {n : Nat} {c : Char} (h : c ∈ (Nat.repr n).toList) :
    c.isDigit = true := by
  rw [Nat.toList_repr] at h
  exact Nat.isDigit_of_mem_toDigits (by decide) (by decide) h

theorem isDigit_of_mem_padNat {width n : Nat} {c : Char} (h : c ∈ padNat width n) :
    c.isDigit = true := by
  rcases List.mem_append.mp h with hz | hd
  · rw [List.eq_of_mem_replicate hz]
    rfl
  · exact isDigit_of_mem_repr hd

theorem repr_ne_nil (n : Nat) : (Nat.repr n).toList ≠ [] := by
  rw [Nat.toList_repr]
  exact Nat.toDigits_ne_nil

theorem le_length_padNat (width n : Nat) : width ≤ (padNat width n).length := by
  simp only [padNat, padLeft, List.length_append, List.length_replicate]
  omega

/-- A number of no more digits than the width is filled up to the width. -/
theorem length_padNat {width n : Nat} (hw : 0 < width) (hn : n < 10 ^ width) :
    (padNat width n).length = width := by
  have hlen : (Nat.repr n).toList.length ≤ width := by
    rw [Nat.toList_repr]
    exact (Nat.length_toDigits_le_iff (by decide) hw).mpr hn
  simp only [padNat, padLeft, List.length_append, List.length_replicate]
  omega

theorem padNat_ne_nil (width n : Nat) : padNat width n ≠ [] := by
  simp only [padNat, padLeft, ne_eq, List.append_eq_nil_iff, not_and]
  intro _
  exact repr_ne_nil n

/-! ## Reading a run of digits -/

/-- Whether a text goes on without a digit, so that a run in front of it ends there. -/
def EndsRun (rest : List Char) : Prop :=
  ∀ c ∈ rest.head?, c.isDigit = false

theorem endsRun_nil : EndsRun [] := by
  simp [EndsRun]

theorem endsRun_cons {c : Char} (rest : List Char) (h : c.isDigit = false) :
    EndsRun (c :: rest) := by
  simpa [EndsRun] using h

/-- Taking off digits stops where the run ends. -/
theorem splitDigits_append {ds rest : List Char} (hd : ∀ c ∈ ds, c.isDigit = true)
    (hr : EndsRun rest) : splitDigits (ds ++ rest) = (ds, rest) := by
  have hrest : rest.takeWhile Char.isDigit = [] ∧ rest.dropWhile Char.isDigit = rest := by
    cases rest with
    | nil => simp
    | cons c rest =>
      have hc : c.isDigit = false := hr c rfl
      simp [hc]
  rw [splitDigits, List.takeWhile_append_of_pos hd, List.dropWhile_append_of_pos hd, hrest.1,
    hrest.2, List.append_nil]

theorem splitDigits_self {ds : List Char} (hd : ∀ c ∈ ds, c.isDigit = true) :
    splitDigits ds = (ds, []) := by
  simpa using splitDigits_append hd endsRun_nil

/-- A run of the expected length is taken off whatever follows. -/
theorem exactDigits?_append {n : Nat} {ds : List Char} (rest : List Char) (hl : ds.length = n)
    (hd : ∀ c ∈ ds, c.isDigit = true) : exactDigits? n (ds ++ rest) = some (ds, rest) := by
  subst hl
  simp only [exactDigits?, List.take_left, List.drop_left]
  rw [if_pos ⟨trivial, List.all_eq_true.mpr hd⟩]

/-- A filled-up number is read by a reader of its width. -/
theorem exactDigits?_padNat {width n : Nat} (rest : List Char) (hw : 0 < width)
    (hn : n < 10 ^ width) :
    exactDigits? width (padNat width n ++ rest) = some (padNat width n, rest) :=
  exactDigits?_append rest (length_padNat hw hn) fun _ => isDigit_of_mem_padNat

@[simp] theorem expect?_cons (c : Char) (rest : List Char) :
    expect? c (c :: rest) = some rest := by
  simp [expect?]

/-- What was taken off stood in front of the rest. -/
theorem eq_cons_of_expect? {c : Char} {cs rest : List Char} (h : expect? c cs = some rest) :
    cs = c :: rest := by
  cases cs with
  | nil => exact absurd h (by simp [expect?])
  | cons d cs =>
    rw [expect?] at h
    split at h
    · rename_i heq
      rw [heq, Option.some.inj h]
    · exact absurd h (by simp)

theorem eq_append_of_exactDigits? {n : Nat} {cs ds rest : List Char}
    (h : exactDigits? n cs = some (ds, rest)) :
    cs = ds ++ rest ∧ ∀ c ∈ ds, c.isDigit = true := by
  simp only [exactDigits?] at h
  split at h
  · rename_i hdigits
    obtain ⟨rfl, rfl⟩ := Prod.mk.inj (Option.some.inj h)
    exact ⟨(List.take_append_drop n cs).symm, List.all_eq_true.mp hdigits.2⟩
  · exact absurd h (by simp)

theorem length_of_exactDigits? {n : Nat} {cs ds rest : List Char}
    (h : exactDigits? n cs = some (ds, rest)) : ds.length = n := by
  simp only [exactDigits?] at h
  split at h
  · rename_i hdigits
    obtain ⟨rfl, _⟩ := Prod.mk.inj (Option.some.inj h)
    exact hdigits.1
  · exact absurd h (by simp)

theorem splitDigits_eq (cs : List Char) :
    cs = (splitDigits cs).1 ++ (splitDigits cs).2 ∧ ∀ c ∈ (splitDigits cs).1, c.isDigit = true :=
  ⟨List.takeWhile_append_dropWhile.symm, List.all_eq_true.mp List.all_takeWhile⟩

theorem digitValue_lt {c : Char} (h : c.isDigit = true) : digitValue c < 10 := by
  have hr : 48 ≤ c.toNat ∧ c.toNat ≤ 57 := Char.isDigit_iff_toNat.mp h
  have hzero : ('0' : Char).toNat = 48 := rfl
  rw [digitValue, hzero]
  omega

/-- A run of digits is less than the power of ten that has one digit more. -/
theorem digitsValue_lt {cs : List Char} (h : ∀ c ∈ cs, c.isDigit = true) :
    digitsValue cs < 10 ^ cs.length := by
  have hfrom : ∀ n, cs.foldl (fun n c => 10 * n + digitValue c) n < (n + 1) * 10 ^ cs.length := by
    induction cs with
    | nil => simp
    | cons c cs ih =>
      intro n
      have hdigit := digitValue_lt (h c List.mem_cons_self)
      calc (c :: cs).foldl (fun n c => 10 * n + digitValue c) n
          < (10 * n + digitValue c + 1) * 10 ^ cs.length :=
            ih (fun c hc => h c (List.mem_cons_of_mem _ hc)) _
        _ ≤ 10 * (n + 1) * 10 ^ cs.length := Nat.mul_le_mul_right _ (by omega)
        _ = (n + 1) * 10 ^ (c :: cs).length := by
            rw [List.length_cons, Nat.pow_succ, Nat.mul_comm 10, Nat.mul_assoc,
              Nat.mul_comm (10 ^ cs.length)]
  have hvalue := hfrom 0
  rwa [Nat.zero_add, Nat.one_mul] at hvalue

/-- The first digits are what is left of the value without the last ones. -/
theorem digitsValue_take {cs : List Char} (k : Nat) (h : ∀ c ∈ cs, c.isDigit = true) :
    digitsValue (cs.take k) = digitsValue cs / 10 ^ (cs.length - k) := by
  have hlast := digitsValue_lt fun c hc => h c (List.mem_of_mem_drop (i := k) hc)
  rw [List.length_drop] at hlast
  have hvalue := digitsValue_append (cs.take k) (cs.drop k)
  rw [List.take_append_drop, List.length_drop] at hvalue
  rw [hvalue, Nat.mul_add_div (Nat.pow_pos (by decide)), Nat.div_eq_of_lt hlast, Nat.add_zero]

theorem lt_pow_length_padNat (width n : Nat) : n < 10 ^ (padNat width n).length := by
  have hlt := @digitsValue_lt (padNat width n) fun _ => isDigit_of_mem_padNat
  rwa [digitsValue_padNat] at hlt

/-- Text that begins with a digit has no sign. -/
theorem splitSign_of_isDigit {c : Char} (rest : List Char) (h : c.isDigit = true) :
    splitSign (c :: rest) = (false, c :: rest) := by
  have hminus : c ≠ '-' := by rintro rfl; revert h; decide
  have hplus : c ≠ '+' := by rintro rfl; revert h; decide
  simp [splitSign, hminus, hplus]

/-! ## Signs -/

/-- The characters of a sign; only a minus sign is written. -/
def signChars (negative : Bool) : List Char :=
  if negative then ['-'] else []

/-- The text of an integer is its sign and its digits. -/
theorem toList_toString (n : Int) :
    (toString n).toList = signChars (decide (n < 0)) ++ (Nat.repr n.natAbs).toList := by
  cases n with
  | ofNat m =>
    have h : ¬ ((Int.ofNat m) < 0) := by simp
    simp only [signChars, h, decide_false]
    rfl
  | negSucc m =>
    have h : Int.negSucc m < 0 := Int.negSucc_lt_zero m
    simp only [signChars, h, decide_true]
    exact String.toList_append ..

/-! ## Fractions -/

/-- The digits of a fraction behind their point; without digits there is no point. -/
def fractionChars (fraction : List Char) : List Char :=
  if fraction.isEmpty then [] else '.' :: fraction

@[simp] theorem fractionChars_nil : fractionChars [] = [] := rfl

theorem fractionChars_of_ne_nil {fraction : List Char} (h : fraction ≠ []) :
    fractionChars fraction = '.' :: fraction := by
  rw [fractionChars, List.isEmpty_eq_false_iff.mpr h]
  rfl

/-! ## Blanks -/

/-- A digit is no blank. -/
theorem isBlank_of_isDigit {c : Char} (h : c.isDigit = true) : isBlank c = false := by
  have hr : 48 ≤ c.toNat ∧ c.toNat ≤ 57 := Char.isDigit_iff_toNat.mp h
  simp only [isBlank, Bool.or_eq_false_iff, Bool.and_eq_false_iff, decide_eq_false_iff_not,
    beq_eq_false_iff_ne]
  omega

/-- What is trimmed are blanks at the two ends. -/
theorem exists_blanks_around (cs : List Char) :
    ∃ before after, (∀ c ∈ before, isBlank c = true) ∧ (∀ c ∈ after, isBlank c = true) ∧
      cs = before ++ (trimChars cs ++ after) := by
  have hall (l : List Char) : ∀ c ∈ l.takeWhile isBlank, isBlank c = true :=
    List.all_eq_true.mp List.all_takeWhile
  refine ⟨cs.takeWhile isBlank, ((cs.dropWhile isBlank).reverse.takeWhile isBlank).reverse,
    hall cs, fun c hc => hall _ c (List.mem_reverse.mp hc), ?_⟩
  rw [trimChars, ← List.reverse_append, List.takeWhile_append_dropWhile, List.reverse_reverse,
    List.takeWhile_append_dropWhile]

/-- Blanks around text without blanks are trimmed, and nothing else. -/
theorem trimChars_append {before cs after : List Char} (hbefore : ∀ c ∈ before, isBlank c = true)
    (hafter : ∀ c ∈ after, isBlank c = true) (h : ∀ c ∈ cs, isBlank c = false) :
    trimChars (before ++ (cs ++ after)) = cs := by
  have hdrop {l : List Char} (rest : List Char) (hne : l ≠ [])
      (hl : ∀ c ∈ l, isBlank c = false) : (l ++ rest).dropWhile isBlank = l ++ rest := by
    cases l with
    | nil => exact absurd rfl hne
    | cons c l => simp [hl c List.mem_cons_self]
  rw [trimChars, List.dropWhile_append_of_pos hbefore]
  by_cases hne : cs = []
  · have hnone : (after ++ []).dropWhile isBlank = [] := List.dropWhile_append_of_pos hafter
    rw [List.append_nil] at hnone
    rw [hne, List.nil_append, hnone]
    rfl
  · rw [hdrop after hne h, List.reverse_append,
      List.dropWhile_append_of_pos fun c hc => hafter c (List.mem_reverse.mp hc)]
    have hback := hdrop [] (List.reverse_ne_nil_iff.mpr hne)
      fun c hc => h c (List.mem_reverse.mp hc)
    rw [List.append_nil] at hback
    rw [hback, List.reverse_reverse]

/-- Text without blanks is left as it is. -/
theorem trimChars_of_no_blank {cs : List Char} (h : ∀ c ∈ cs, isBlank c = false) :
    trimChars cs = cs := by
  simpa using @trimChars_append [] cs [] (by simp) (by simp) h

end WarehouseRows.Text
