import WarehouseRows.Json.Reader
import WarehouseRows.Json.Writer
import WarehouseRows.Proofs.Members

/-!
# JSON text that is written is read back

A step of the reader takes a value from the front of a text and leaves the rest. The rules of
the grammar are laws of these steps: how a value is taken from brackets with items between
them, from quotes with escapes, from blanks and a value. Each rule says that the characters
that are taken are fuel enough. With them, what is written over several lines is read back by
following the writer over the value, whatever comes after it.

Numbers are left out: a number need not come back as the number it was written for.

## Main definitions

* `Json.IsTextual`: the values without numbers, with the members of every object in order.
* `Json.Denotes`: a text from whose front a value is read.
-/

namespace WarehouseRows.Json

/-- What passes from the parts of every value to the value holds for all values. -/
@[induction_eliminator]
theorem induction {motive : Json → Prop} (null : motive .null) (bool : ∀ b, motive (.bool b))
    (number : ∀ x, motive (.number x)) (string : ∀ s, motive (.string s))
    (array : ∀ items, (∀ item ∈ items, motive item) → motive (.array items))
    (object : ∀ members : List (String × Json), (∀ m ∈ members, motive m.2) →
      motive (.object members)) (j : Json) : motive j :=
  @Json.rec motive (fun items => ∀ item ∈ items, motive item)
    (fun members => ∀ m ∈ members, motive m.2) (fun m => motive m.2)
    null bool number string array object
    (fun _ h => absurd h List.not_mem_nil)
    (fun _ _ hfirst hrest item hitem => by
      rcases List.mem_cons.mp hitem with rfl | hitem
      · exact hfirst
      · exact hrest item hitem)
    (fun _ h => absurd h List.not_mem_nil)
    (fun _ _ hfirst hrest m hm => by
      rcases List.mem_cons.mp hm with rfl | hm
      · exact hfirst
      · exact hrest m hm)
    (fun _ _ hvalue => hvalue) j

/-! ## Strings -/

theorem hexUnit?_control :
    ∀ n < 32, hexUnit? '0' '0' (hexDigit (n / 16)) (hexDigit (n % 16)) = some n := by
  decide

/-- A character inside a string is read from its escape. -/
theorem readStringChars_escapeChar (fuel : Nat) (c : Char) (rest : List Char) :
    readStringChars (fuel + 1) (escapeChar c ++ rest) =
      readStringChars.cons c (readStringChars fuel rest) := by
  rw [escapeChar]
  -- the seven escapes of one letter
  iterate 7
    split
    · rename_i h
      subst h
      rfl
  split
  · rename_i h
    have hunit := hexUnit?_control c.toNat h
    have hhigh : Text.isHighSurrogate c.toNat = false := by
      simp only [Text.isHighSurrogate, Bool.and_eq_false_iff, decide_eq_false_iff_not]
      omega
    have hlow : Text.isLowSurrogate c.toNat = false := by
      simp only [Text.isLowSurrogate, Bool.and_eq_false_iff, decide_eq_false_iff_not]
      omega
    have hchar : Text.charOfUnit c.toNat = c := by
      rw [Text.charOfUnit, hhigh, hlow]
      exact Char.ofNat_toNat c
    simp only [numericEscape, List.cons_append, List.nil_append, readStringChars, hunit, hhigh,
      hchar]
    rfl
  · rename_i hquote hslash _ _ _ _ _ hcontrol
    simp only [List.singleton_append, readStringChars, hquote, hslash, hcontrol, if_false]

theorem readStringChars_escaped (cs : List Char) {fuel : Nat} (h : cs.length < fuel)
    (rest : List Char) :
    readStringChars fuel (cs.flatMap escapeChar ++ '"' :: rest) = .ok (cs, rest) := by
  induction cs generalizing fuel with
  | nil =>
    obtain ⟨fuel, rfl⟩ := Nat.exists_eq_add_of_lt h
    rfl
  | cons c cs ih =>
    rw [List.length_cons] at h
    obtain ⟨fuel, rfl⟩ : ∃ n, fuel = n + 1 := ⟨fuel - 1, by omega⟩
    rw [List.flatMap_cons, List.append_assoc, readStringChars_escapeChar, ih (by omega)]
    rfl

theorem length_le_flatMap_escapeChar (cs : List Char) :
    cs.length ≤ (cs.flatMap escapeChar).length := by
  have hone (c : Char) : 1 ≤ (escapeChar c).length := by
    rw [escapeChar]
    repeat' split
    all_goals simp [numericEscape]
  induction cs with
  | nil => simp
  | cons c cs ih =>
    have := hone c
    simp only [List.flatMap_cons, List.length_append, List.length_cons]
    omega

/-- A string is read from its quotes, and takes no more fuel than it has characters. -/
theorem readString_quotedThen (s : String) {fuel : Nat} (after : List Char)
    (h : (quotedThen s after).length ≤ fuel + 1 + after.length) :
    readString fuel (quotedThen s after) = .ok (s, after) := by
  have hlength := length_le_flatMap_escapeChar s.toList
  simp only [quotedThen, List.length_cons, List.length_append] at h
  have hlt : s.toList.length < fuel := by omega
  have hchars := readStringChars_escaped s.toList hlt after
  simp only [quotedThen, List.cons_append, readString, hchars, String.ofList_toList]

/-! ## Blanks -/

theorem skipBlanks_append {bs : List Char} (h : ∀ b ∈ bs, isJsonBlank b = true)
    (cs : List Char) : skipBlanks (bs ++ cs) = skipBlanks cs := by
  rw [skipBlanks, List.dropWhile_append_of_pos h]
  rfl

theorem skipBlanks_cons {c : Char} (h : isJsonBlank c = false) (cs : List Char) :
    skipBlanks (c :: cs) = c :: cs := by
  rw [skipBlanks, List.dropWhile_cons_of_neg (by simp [h])]

/-! ## The rules of the grammar -/

/-- Whether a value is read from the front of a text and leaves the rest; the characters that
it takes are fuel enough. -/
def Denotes (cs : List Char) (j : Json) (rest : List Char) : Prop :=
  ∀ fuel, cs.length ≤ fuel + rest.length → readValue fuel cs = .ok (j, rest)

/-- Whether items and the bracket behind them are read from the front of a text. -/
def ItemsDenote (cs : List Char) (items : List Json) (rest : List Char) : Prop :=
  ∀ fuel, cs.length ≤ fuel + rest.length → readItems fuel cs = .ok (items, rest)

/-- Whether members and the brace behind them are read from the front of a text. -/
def MembersDenote (cs : List Char) (members : List (String × Json)) (rest : List Char) : Prop :=
  ∀ fuel, cs.length ≤ fuel + rest.length → readMembers fuel cs = .ok (members, rest)

section Rules

variable {cs bs rest : List Char} {j : Json} {items : List Json}
  {members : List (String × Json)} {name : String}

/-- Reading takes at least one character. -/
theorem Denotes.lt (h : Denotes cs j rest) : rest.length < cs.length := by
  refine Nat.lt_of_not_le fun hle => ?_
  exact absurd (h 0 (by omega)) (by simp [readValue])

theorem ItemsDenote.lt (h : ItemsDenote cs items rest) : rest.length < cs.length := by
  refine Nat.lt_of_not_le fun hle => ?_
  exact absurd (h 0 (by omega)) (by simp [readItems])

theorem MembersDenote.lt (h : MembersDenote cs members rest) : rest.length < cs.length := by
  refine Nat.lt_of_not_le fun hle => ?_
  exact absurd (h 0 (by omega)) (by simp [readMembers])

/-- Where characters are taken there is fuel for a step. -/
theorem denotes_of_step (hlt : rest.length < cs.length)
    (h : ∀ fuel, cs.length ≤ fuel + 1 + rest.length →
      readValue (fuel + 1) cs = .ok (j, rest)) : Denotes cs j rest := by
  intro fuel hfuel
  obtain ⟨fuel, rfl⟩ : ∃ n, fuel = n + 1 := ⟨fuel - 1, by omega⟩
  exact h fuel hfuel

/-- Blanks before a value are passed over. -/
theorem Denotes.blanks (h : Denotes cs j rest) (hbs : ∀ b ∈ bs, isJsonBlank b = true) :
    Denotes (bs ++ cs) j rest := by
  have hlt := h.lt
  refine denotes_of_step (by rw [List.length_append]; omega) fun fuel hfuel => ?_
  rw [List.length_append] at hfuel
  have hread := h (fuel + 1) (by omega)
  rw [readValue] at hread ⊢
  rw [skipBlanks_append hbs]
  exact hread

theorem denotes_null : Denotes (wordThen "null" rest) .null rest :=
  denotes_of_step (by simp [wordThen]; omega) fun _ _ => rfl

theorem denotes_bool (b : Bool) : Denotes (wordThen (boolText b) rest) (.bool b) rest := by
  cases b with
  | true => exact denotes_of_step (by simp [wordThen, boolText]; omega) fun _ _ => rfl
  | false => exact denotes_of_step (by simp [wordThen, boolText]; omega) fun _ _ => rfl

theorem lt_length_quotedThen (s : String) (rest : List Char) :
    rest.length < (quotedThen s rest).length := by
  simp only [quotedThen, List.length_append, List.length_cons]
  omega

theorem denotes_string (s : String) : Denotes (quotedThen s rest) (.string s) rest := by
  refine denotes_of_step (lt_length_quotedThen s rest) fun fuel hfuel => ?_
  have hread := readString_quotedThen s rest hfuel
  rw [quotedThen, List.cons_append] at hread ⊢
  rw [readValue, skipBlanks_cons (by decide)]
  simp only [hread]

theorem denotes_emptyArray : Denotes ('[' :: ']' :: rest) (.array []) rest :=
  denotes_of_step (by simp only [List.length_cons]; omega) fun _ _ => rfl

theorem denotes_emptyObject : Denotes ('\x7b' :: '\x7d' :: rest) (.object []) rest :=
  denotes_of_step (by simp only [List.length_cons]; omega) fun _ _ => rfl

/-- A closing bracket is no value, so no items are read from it. -/
theorem ItemsDenote.skipBlanks_ne (h : ItemsDenote cs items rest) (after : List Char) :
    skipBlanks cs ≠ ']' :: after := by
  intro hclose
  have hread := h (cs.length + 2) (by omega)
  rw [readItems, readValue, hclose] at hread
  exact absurd hread (by simp [readNumber, readIntegerPart, Text.splitDigits])

theorem MembersDenote.skipBlanks_ne (h : MembersDenote cs members rest) (after : List Char) :
    skipBlanks cs ≠ '\x7d' :: after := by
  intro hclose
  have hread := h (cs.length + 2) (by omega)
  rw [readMembers, hclose] at hread
  exact absurd hread (by simp [readString])

theorem denotes_array (h : ItemsDenote cs items rest) :
    Denotes ('[' :: cs) (.array items) rest := by
  have hlt := h.lt
  refine denotes_of_step (by rw [List.length_cons]; omega) fun fuel hfuel => ?_
  rw [List.length_cons] at hfuel
  rw [readValue, skipBlanks_cons (by decide)]
  simp only
  split
  · rename_i after hclose
    exact absurd hclose (h.skipBlanks_ne after)
  · simp only [h fuel (by omega)]

theorem denotes_object (h : MembersDenote cs members rest) :
    Denotes ('\x7b' :: cs) (.object (Members.ofPairs members)) rest := by
  have hlt := h.lt
  refine denotes_of_step (by rw [List.length_cons]; omega) fun fuel hfuel => ?_
  rw [List.length_cons] at hfuel
  rw [readValue, skipBlanks_cons (by decide)]
  simp only
  split
  · rename_i after hclose
    exact absurd hclose (h.skipBlanks_ne after)
  · simp only [h fuel (by omega)]

/-- The last item stands before a closing bracket. -/
theorem itemsDenote_last (h : Denotes cs j (bs ++ ']' :: rest))
    (hbs : ∀ b ∈ bs, isJsonBlank b = true) : ItemsDenote cs [j] rest := by
  intro fuel hfuel
  have hlt := h.lt
  rw [List.length_append, List.length_cons] at hlt
  obtain ⟨fuel, rfl⟩ : ∃ n, fuel = n + 1 := ⟨fuel - 1, by omega⟩
  have hread := h fuel (by rw [List.length_append, List.length_cons]; omega)
  rw [readItems, hread]
  simp only [skipBlanks_append hbs, skipBlanks_cons (c := ']') (by decide)]

/-- Every other item stands before a comma. -/
theorem itemsDenote_cons {after : List Char} (h : Denotes cs j (',' :: after))
    (hitems : ItemsDenote after items rest) : ItemsDenote cs (j :: items) rest := by
  intro fuel hfuel
  have hlt := h.lt
  have hitemslt := hitems.lt
  rw [List.length_cons] at hlt
  obtain ⟨fuel, rfl⟩ : ∃ n, fuel = n + 1 := ⟨fuel - 1, by omega⟩
  have hread := h fuel (by rw [List.length_cons]; omega)
  rw [readItems, hread]
  simp only [skipBlanks_cons (c := ',') (by decide), hitems fuel (by omega)]

/-- The name of a member is read from its quotes, behind blanks. -/
theorem readString_name (fuel : Nat) (name : String) (hbs : ∀ b ∈ bs, isJsonBlank b = true)
    (h : (bs ++ quotedThen name cs).length ≤ fuel + 1 + cs.length) :
    readString fuel (skipBlanks (bs ++ quotedThen name cs)) = .ok (name, cs) := by
  have hskip : skipBlanks (quotedThen name cs) = quotedThen name cs := by
    rw [quotedThen, List.cons_append, skipBlanks_cons (by decide)]
  rw [List.length_append] at h
  rw [skipBlanks_append hbs, hskip]
  exact readString_quotedThen name cs (by omega)

/-- A member is a name in quotes, a colon and a value; the last stands before a closing
brace. -/
theorem membersDenote_last {before : List Char} (hbefore : ∀ b ∈ before, isJsonBlank b = true)
    (h : Denotes cs j (bs ++ '\x7d' :: rest)) (hbs : ∀ b ∈ bs, isJsonBlank b = true) :
    MembersDenote (before ++ quotedThen name (':' :: cs)) [(name, j)] rest := by
  intro fuel hfuel
  have hlt := h.lt
  have hquoted := lt_length_quotedThen name (':' :: cs)
  simp only [List.length_append, List.length_cons] at hlt hfuel hquoted
  obtain ⟨fuel, rfl⟩ : ∃ n, fuel = n + 1 := ⟨fuel - 1, by omega⟩
  have hname : readString fuel (skipBlanks (before ++ quotedThen name (':' :: cs))) =
      .ok (name, ':' :: cs) :=
    readString_name fuel name hbefore (by rw [List.length_append, List.length_cons]; omega)
  have hread := h fuel (by rw [List.length_append, List.length_cons]; omega)
  rw [readMembers, hname]
  simp only [skipBlanks_cons (c := ':') (by decide), hread, skipBlanks_append hbs,
    skipBlanks_cons (c := '\x7d') (by decide)]

/-- Every other member stands before a comma. -/
theorem membersDenote_cons {before after : List Char}
    (hbefore : ∀ b ∈ before, isJsonBlank b = true) (h : Denotes cs j (',' :: after))
    (hmembers : MembersDenote after members rest) :
    MembersDenote (before ++ quotedThen name (':' :: cs)) ((name, j) :: members) rest := by
  intro fuel hfuel
  have hlt := h.lt
  have hmemberslt := hmembers.lt
  have hquoted := lt_length_quotedThen name (':' :: cs)
  simp only [List.length_append, List.length_cons] at hlt hfuel hquoted
  obtain ⟨fuel, rfl⟩ : ∃ n, fuel = n + 1 := ⟨fuel - 1, by omega⟩
  have hname : readString fuel (skipBlanks (before ++ quotedThen name (':' :: cs))) =
      .ok (name, ':' :: cs) :=
    readString_name fuel name hbefore (by rw [List.length_append, List.length_cons]; omega)
  have hread := h fuel (by rw [List.length_cons]; omega)
  rw [readMembers, hname]
  simp only [skipBlanks_cons (c := ':') (by decide), hread,
    skipBlanks_cons (c := ',') (by decide), hmembers fuel (by omega)]

end Rules

/-! ## Values that are written without numbers -/

mutual

/-- Whether a value has no numbers, and the members of every object in it stand in the order in
which an object holds them. -/
def IsTextual (j : Json) : Prop :=
  match j with
  | .number _ => False
  | .array items => AllTextual items
  | .object members => Members.ofPairs members = members ∧ MembersTextual members
  | .null | .bool _ | .string _ => True

/-- Whether all items are such values. -/
def AllTextual (items : List Json) : Prop :=
  match items with
  | [] => True
  | item :: rest => IsTextual item ∧ AllTextual rest

/-- Whether the values of all members are such values. -/
def MembersTextual (members : List (String × Json)) : Prop :=
  match members with
  | [] => True
  | (_, value) :: rest => IsTextual value ∧ MembersTextual rest

end

theorem allTextual_iff {items : List Json} :
    AllTextual items ↔ ∀ item ∈ items, item.IsTextual := by
  induction items with
  | nil => simp [AllTextual]
  | cons item items ih => simp [AllTextual, ih]

theorem membersTextual_iff {members : List (String × Json)} :
    MembersTextual members ↔ ∀ m ∈ members, m.2.IsTextual := by
  induction members with
  | nil => simp [MembersTextual]
  | cons m members ih =>
    obtain ⟨name, value⟩ := m
    simp [MembersTextual, ih]

/-- Members whose names are among known ones, in their order, make an object without numbers if
their values are such. -/
theorem isTextual_object {members : List (String × Json)} (known : List String)
    (hknown : known.Nodup ∧ ∀ n ∈ known, Members.arrayIndex? n = none)
    (h : (Members.names members).Sublist known) (hvalues : ∀ m ∈ members, m.2.IsTextual) :
    (object members).IsTextual :=
  ⟨Members.ofPairs_eq_self h hknown.1 hknown.2, membersTextual_iff.mpr hvalues⟩

/-- The same for members that are followed by others. -/
theorem isTextual_append {front back : List (String × Json)} (known extra : List String)
    (hknown : (known ++ extra).Nodup ∧ ∀ n ∈ known ++ extra, Members.arrayIndex? n = none)
    (hfront : Members.names front = known) (hback : (Members.names back).Sublist extra)
    (hfrontValues : ∀ m ∈ front, m.2.IsTextual) (hbackValues : ∀ m ∈ back, m.2.IsTextual) :
    (object (front ++ back)).IsTextual := by
  refine isTextual_object (known ++ extra) hknown ?_
    (List.forall_mem_append.mpr ⟨hfrontValues, hbackValues⟩)
  rw [Members.names, List.map_append, ← hfront]
  exact (List.Sublist.refl _).append hback

theorem isTextual_of_mem_optional {name : String} {value : Option Json}
    (h : ∀ v, value = some v → v.IsTextual) : ∀ m ∈ optional name value, m.2.IsTextual := by
  cases value with
  | none => simp [optional]
  | some v => simpa [optional] using h v rfl

theorem isTextual_of_mem_text {name : String} {text : Option String} :
    ∀ m ∈ optional name (text.map .string), m.2.IsTextual := by
  apply isTextual_of_mem_optional
  intro v hv
  obtain ⟨t, _, rfl⟩ := Option.map_eq_some_iff.mp hv
  exact trivial

/-! ## Text over several lines -/

theorem isJsonBlank_newline (depth : Nat) :
    ∀ b ∈ '\n' :: List.replicate (2 * depth) ' ', isJsonBlank b = true := by
  intro b hb
  rcases List.mem_cons.mp hb with rfl | hb
  · decide
  · rw [(List.mem_replicate.mp hb).2]
    decide

theorem denotes_newline {cs rest : List Char} {j : Json} (depth : Nat)
    (h : Denotes cs j rest) : Denotes (newlineThen depth cs) j rest :=
  h.blanks (isJsonBlank_newline depth)

theorem itemsDenote_indented {items : List Json} (depth outer : Nat) (rest : List Char)
    (hne : items ≠ [])
    (h : ∀ item ∈ items, ∀ after, Denotes (indentedThen depth item after) item after) :
    ItemsDenote (indentedItemsThen depth items (newlineThen outer (']' :: rest))) items rest := by
  induction items with
  | nil => exact absurd rfl hne
  | cons item items ih =>
    have hfirst := h item List.mem_cons_self
    cases items with
    | nil =>
      exact itemsDenote_last (denotes_newline depth (hfirst _)) (isJsonBlank_newline outer)
    | cons next items =>
      refine itemsDenote_cons (denotes_newline depth (hfirst _)) ?_
      exact ih (by simp) fun item hitem => h item (List.mem_cons_of_mem _ hitem)

theorem membersDenote_indented {members : List (String × Json)} (depth outer : Nat)
    (rest : List Char) (hne : members ≠ [])
    (h : ∀ m ∈ members, ∀ after, Denotes (indentedThen depth m.2 after) m.2 after) :
    MembersDenote (indentedMembersThen depth members (newlineThen outer ('\x7d' :: rest)))
      members rest := by
  have hblank : ∀ b ∈ [' '], isJsonBlank b = true :=
    fun b hb => List.mem_singleton.mp hb ▸ rfl
  induction members with
  | nil => exact absurd rfl hne
  | cons m members ih =>
    obtain ⟨name, value⟩ := m
    have hfirst := h (name, value) List.mem_cons_self
    cases members with
    | nil =>
      exact membersDenote_last (isJsonBlank_newline depth) ((hfirst _).blanks hblank)
        (isJsonBlank_newline outer)
    | cons next members =>
      refine membersDenote_cons (isJsonBlank_newline depth) ((hfirst _).blanks hblank) ?_
      exact ih (by simp) fun m hm => h m (List.mem_cons_of_mem _ hm)

/-- A value is read from its text over several lines, whatever comes after it. -/
theorem denotes_indentedThen {j : Json} (h : j.IsTextual) (depth : Nat) (rest : List Char) :
    Denotes (indentedThen depth j rest) j rest := by
  induction j generalizing depth rest with
  | null => exact denotes_null
  | bool b => exact denotes_bool b
  | number x => exact absurd h id
  | string s => exact denotes_string s
  | array items ih =>
    cases items with
    | nil => exact denotes_emptyArray
    | cons item items =>
      exact denotes_array <| itemsDenote_indented (depth + 1) depth rest (by simp)
        fun item hitem after => ih item hitem (allTextual_iff.mp h item hitem) (depth + 1) after
  | object members ih =>
    obtain ⟨horder, hvalues⟩ := h
    cases members with
    | nil => exact denotes_emptyObject
    | cons m members =>
      have hmembers := membersDenote_indented (depth + 1) depth rest (by simp)
        fun m hm after => ih m hm (membersTextual_iff.mp hvalues m hm) (depth + 1) after
      have hobject := denotes_object hmembers
      rw [horder] at hobject
      exact hobject

/-! ## Whole texts -/

theorem quotedThen_append (s : String) (after more : List Char) :
    quotedThen s (after ++ more) = quotedThen s after ++ more := by
  simp only [quotedThen, List.cons_append, List.append_assoc]

theorem wordThen_append (word : String) (after more : List Char) :
    wordThen word (after ++ more) = wordThen word after ++ more := by
  simp only [wordThen, List.append_assoc]

theorem newlineThen_append (depth : Nat) (after more : List Char) :
    newlineThen depth (after ++ more) = newlineThen depth after ++ more := by
  simp only [newlineThen, List.cons_append, List.append_assoc]

theorem indentedItemsThen_append {items : List Json} (depth : Nat) (after more : List Char)
    (h : ∀ item ∈ items, ∀ after more,
      indentedThen depth item (after ++ more) = indentedThen depth item after ++ more) :
    indentedItemsThen depth items (after ++ more) =
      indentedItemsThen depth items after ++ more := by
  induction items with
  | nil => rfl
  | cons item items ih =>
    have hfirst := h item List.mem_cons_self
    cases items with
    | nil => rw [indentedItemsThen, hfirst, newlineThen_append, indentedItemsThen]
    | cons next items =>
      have hcons (after : List Char) : indentedItemsThen depth (item :: next :: items) after =
          newlineThen depth (indentedThen depth item
            (',' :: indentedItemsThen depth (next :: items) after)) := rfl
      have hrest := ih fun item hitem => h item (List.mem_cons_of_mem _ hitem)
      rw [hcons, hcons, hrest, ← List.cons_append, hfirst, newlineThen_append]

theorem indentedMembersThen_append {members : List (String × Json)} (depth : Nat)
    (after more : List Char)
    (h : ∀ m ∈ members, ∀ after more,
      indentedThen depth m.2 (after ++ more) = indentedThen depth m.2 after ++ more) :
    indentedMembersThen depth members (after ++ more) =
      indentedMembersThen depth members after ++ more := by
  induction members with
  | nil => rfl
  | cons m members ih =>
    obtain ⟨name, value⟩ := m
    have hfirst := h (name, value) List.mem_cons_self
    cases members with
    | nil =>
      rw [indentedMembersThen, hfirst, ← List.cons_append, ← List.cons_append, quotedThen_append,
        newlineThen_append, indentedMembersThen]
    | cons next members =>
      have hcons (after : List Char) :
          indentedMembersThen depth ((name, value) :: next :: members) after =
            newlineThen depth (quotedThen name (':' :: ' ' :: indentedThen depth value
              (',' :: indentedMembersThen depth (next :: members) after))) := rfl
      have hrest := ih fun m hm => h m (List.mem_cons_of_mem _ hm)
      rw [hcons, hcons, hrest, ← List.cons_append, hfirst, ← List.cons_append, ← List.cons_append,
        quotedThen_append, newlineThen_append]

/-- What comes after a value stays behind its text. -/
theorem indentedThen_append (j : Json) (depth : Nat) (after more : List Char) :
    indentedThen depth j (after ++ more) = indentedThen depth j after ++ more := by
  induction j generalizing depth after more with
  | null => exact wordThen_append _ after more
  | bool b => exact wordThen_append _ after more
  | number x => exact wordThen_append _ after more
  | string s => exact quotedThen_append s after more
  | array items ih =>
    cases items with
    | nil => rfl
    | cons item items =>
      have harray (after : List Char) : indentedThen depth (.array (item :: items)) after =
          '[' :: indentedItemsThen (depth + 1) (item :: items)
            (newlineThen depth (']' :: after)) := rfl
      rw [harray, harray, ← List.cons_append, newlineThen_append,
        indentedItemsThen_append _ _ _ fun item hitem => ih item hitem (depth + 1),
        List.cons_append]
  | object members ih =>
    cases members with
    | nil => rfl
    | cons m members =>
      have hobject (after : List Char) : indentedThen depth (.object (m :: members)) after =
          '\x7b' :: indentedMembersThen (depth + 1) (m :: members)
            (newlineThen depth ('\x7d' :: after)) := rfl
      rw [hobject, hobject, ← List.cons_append, newlineThen_append,
        indentedMembersThen_append _ _ _ fun m hm => ih m hm (depth + 1), List.cons_append]

theorem parse_of_denotes {cs rest : List Char} {j : Json} (h : Denotes cs j rest)
    (hrest : ∀ b ∈ rest, isJsonBlank b = true) : parse (String.ofList cs) = .ok j := by
  have hread := h (2 * cs.length + 2) (by omega)
  have hblanks : skipBlanks rest = [] := by
    simpa [skipBlanks] using skipBlanks_append hrest []
  simp only [parse, String.toList_ofList, hread, hblanks]

/-- The text of a value over several lines is read as the value, also with blanks behind it. -/
theorem parse_indented {j : Json} (h : j.IsTextual) {ending : List Char}
    (hending : ∀ b ∈ ending, isJsonBlank b = true) :
    parse (String.ofList (indentedThen 0 j ending)) = .ok j :=
  parse_of_denotes (denotes_indentedThen h 0 ending) hending

end WarehouseRows.Json
