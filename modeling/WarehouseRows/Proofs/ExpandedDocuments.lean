import WarehouseRows.Proofs.JsonText
import WarehouseRows.Proofs.Outcome
import WarehouseRows.Proofs.Placeholders
import WarehouseRows.Settings.Environment

/-!
# Documents with their variables filled in

The rules for variables in documents are stated apart from how documents are expanded: what stands
in place of a piece of a text, when a text misses a variable, and that nothing else of a document
changes. They leave open what a look-up of variables answers. Expanding follows the rules for the
answers of an environment.

## Main definitions

* `Environment.Replaces`, `Environment.Misses`: the rules for a piece and for a text.
* `Json.Alike`: two documents that differ in their strings only.
* `Environment.Follows`: the outcomes that the rules allow.
-/

namespace WarehouseRows

/-! ## The rules -/

/-- Whether a placeholder asks for a variable; `fallback` is the text behind the first mark, if
there is one. -/
def Placeholder.Asks (inner : Placeholder) (name : String) (fallback : Option (List Char)) : Prop :=
  ∃ front, Parts inner front fallback ∧ name = String.ofList (Text.trimChars front)

namespace Json

/-- Whether a text is one of the strings in a document, at any depth. Names are none. -/
inductive HoldsText (text : String) : Json → Prop
  | here : HoldsText text (.string text)
  | item {items : List Json} {item : Json} (hitem : item ∈ items) (h : HoldsText text item) :
      HoldsText text (.array items)
  | member {members : List (String × Json)} {m : String × Json} (hm : m ∈ members)
      (h : HoldsText text m.2) : HoldsText text (.object members)

/-- Whether two documents are the same but for their strings, which are related one by one. -/
inductive Alike (rule : String → String → Prop) : Json → Json → Prop
  | null : Alike rule .null .null
  | bool (b : Bool) : Alike rule (.bool b) (.bool b)
  | number (x : Double) : Alike rule (.number x) (.number x)
  | string {text text' : String} (h : rule text text') : Alike rule (.string text) (.string text')
  | array {items items' : List Json} (h : List.Forall₂ (Alike rule) items items') :
      Alike rule (.array items) (.array items')
  | object {members members' : List (String × Json)}
      (hnames : members.map Prod.fst = members'.map Prod.fst)
      (h : List.Forall₂ (Alike rule) (members.map Prod.snd) (members'.map Prod.snd)) :
      Alike rule (.object members) (.object members')

end Json

/-- Two relations are the same on lists if they are on the items of the first. -/
theorem forall₂_iff_of_mem {α β : Type} {R S : α → β → Prop} {xs : List α} {ys : List β}
    (h : ∀ x ∈ xs, ∀ y, R x y ↔ S x y) : List.Forall₂ R xs ys ↔ List.Forall₂ S xs ys := by
  constructor
  · intro hR
    exact ((List.forall₂_and_left xs ys).mpr ⟨h, hR⟩).imp fun x y hxy => (hxy.1 y).mp hxy.2
  · intro hS
    exact ((List.forall₂_and_left xs ys).mpr ⟨h, hS⟩).imp fun x y hxy => (hxy.1 y).mpr hxy.2

namespace Json

variable {rule : String → String → Prop} {result : Json}

theorem alike_string {text : String} :
    Alike rule (.string text) result ↔ ∃ text', rule text text' ∧ .string text' = result := by
  constructor
  · rintro ⟨⟩
    exact ⟨_, ‹_›, rfl⟩
  · rintro ⟨text', h, rfl⟩
    exact .string h

theorem alike_array {items : List Json} :
    Alike rule (.array items) result ↔
      ∃ items', List.Forall₂ (Alike rule) items items' ∧ .array items' = result := by
  constructor
  · rintro ⟨⟩
    exact ⟨_, ‹_›, rfl⟩
  · rintro ⟨items', h, rfl⟩
    exact .array h

theorem forall₂_members_iff {R : Json → Json → Prop} {members members' : List (String × Json)} :
    List.Forall₂ (fun m m' => m.1 = m'.1 ∧ R m.2 m'.2) members members' ↔
      members.map Prod.fst = members'.map Prod.fst ∧
        List.Forall₂ R (members.map Prod.snd) (members'.map Prod.snd) := by
  induction members generalizing members' with
  | nil => cases members' <;> simp
  | cons m members ih =>
    cases members' with
    | nil => simp
    | cons m' members' =>
      simp only [List.forall₂_cons, ih, List.map_cons, List.cons.injEq]
      tauto

theorem alike_object {members : List (String × Json)} :
    Alike rule (.object members) result ↔ ∃ members',
      List.Forall₂ (fun m m' => m.1 = m'.1 ∧ Alike rule m.2 m'.2) members members' ∧
        .object members' = result := by
  simp only [forall₂_members_iff]
  constructor
  · rintro ⟨⟩
    exact ⟨_, ⟨‹_›, ‹_›⟩, rfl⟩
  · rintro ⟨members', ⟨hnames, h⟩, rfl⟩
    exact .object hnames h

end Json

namespace Environment

section Rules

variable (look : String → Option String) (allowMissing : Bool)

/-- Whether a look-up finds no value for a variable, or an empty one. -/
def IsUnset (name : String) : Prop :=
  ∀ value, look name = some value → value = ""

/-- Whether characters stand in place of a piece: itself in place of a character, and in place of a
placeholder the value that it asks for, or its default, or the placeholder as it is where it asks
for nothing or may miss its variable. -/
inductive Replaces : Piece → List Char → Prop
  | plain (c : Char) : Replaces (.plain c) [c]
  | nameless {inner : Placeholder} {fallback : Option (List Char)} (hask : inner.Asks "" fallback) :
      Replaces (.placeholder inner) inner.written
  | value {inner : Placeholder} {name value : String} {fallback : Option (List Char)}
      (hask : inner.Asks name fallback) (hname : name ≠ "") (hlook : look name = some value)
      (hvalue : value ≠ "") : Replaces (.placeholder inner) value.toList
  | fallback {inner : Placeholder} {name : String} {text front : List Char}
      {more : Option (List Char)} (hask : inner.Asks name (some text)) (hname : name ≠ "")
      (hunset : IsUnset look name) (hfront : Placeholder.Parts text front more) :
      Replaces (.placeholder inner) front
  | kept {inner : Placeholder} {name : String} (hask : inner.Asks name none) (hname : name ≠ "")
      (hunset : IsUnset look name) (hallowed : allowMissing = true) :
      Replaces (.placeholder inner) inner.written

/-- Whether a placeholder asks for a variable that is unset, and has no default. -/
def Lacks (inner : Placeholder) : Prop :=
  ∃ name, inner.Asks name none ∧ name ≠ "" ∧ IsUnset look name

/-- Whether a placeholder of a text does so. -/
def Misses (text : String) : Prop :=
  ∃ pieces, Piece.Found text.toList pieces ∧ ∃ inner, .placeholder inner ∈ pieces ∧ Lacks look inner

/-- Whether a text is another one with what stands in place of its pieces, one after the other. -/
def Expands (text result : String) : Prop :=
  ∃ pieces parts, Piece.Found text.toList pieces ∧
    List.Forall₂ (Replaces look allowMissing) pieces parts ∧ result.toList = parts.flatten

/-- Whether an outcome is one that the rules allow for a document: a bad settings file if a text in
it misses a variable and none may be missing, and otherwise the document with its texts
expanded. -/
inductive Follows (j : Json) : Except Failure Json → Prop
  | refused {text : String} (hstrict : allowMissing = false) (htext : j.HoldsText text)
      (hmisses : Misses look text) (message : String) : Follows j (.error (.settings message))
  | expanded {result : Json}
      (hnone : allowMissing = true ∨ ∀ text, j.HoldsText text → ¬ Misses look text)
      (halike : j.Alike (Expands look allowMissing) result) : Follows j (.ok result)

end Rules

/-! ## Placeholders -/

theorem asks_iff {inner : Placeholder} {name : String} {fallback : Option (List Char)} :
    inner.Asks name fallback ↔ name = inner.name ∧ fallback = (Placeholder.cut inner).2 := by
  simp only [Placeholder.Asks, Placeholder.parts_iff, Placeholder.name]
  constructor
  · rintro ⟨front, hcut, rfl⟩
    simp [hcut]
  · rintro ⟨rfl, rfl⟩
    exact ⟨_, rfl, rfl⟩

theorem asks_name (inner : Placeholder) : inner.Asks inner.name (Placeholder.cut inner).2 :=
  asks_iff.mpr ⟨rfl, rfl⟩

theorem isUnset_of_eq_none {look : String → Option String} {name : String}
    (h : look name = none) : IsUnset look name :=
  fun _ hvalue => absurd (h.symm.trans hvalue) (by simp)

theorem isUnset_iff {look : String → Option String} {name : String} :
    IsUnset look name ↔ ((look name).filter fun value => !value.isEmpty) = none := by
  rw [Option.filter_eq_none_iff, IsUnset]
  simp

variable (env : Environment) {inner : Placeholder}

theorem resolve_of_name_eq (h : inner.name = "") : env.resolve inner = .ok inner.written := by
  rw [resolve, if_pos (by simp [h])]

theorem resolve_of_value {value : String} (hname : inner.name ≠ "")
    (hlook : env.value? inner.name = some value) (hvalue : value ≠ "") :
    env.resolve inner = .ok value.toList := by
  have hfilter : (env.value? inner.name).filter (fun value => !value.isEmpty) = some value := by
    rw [hlook, Option.filter_some, if_pos (by simpa using hvalue)]
  rw [resolve, if_neg (by simpa using hname), hfilter]

theorem resolve_of_fallback {text front : List Char} {more : Option (List Char)}
    (hname : inner.name ≠ "") (hunset : IsUnset env.value? inner.name)
    (hcut : (Placeholder.cut inner).2 = some text) (hfront : Placeholder.Parts text front more) :
    env.resolve inner = .ok front := by
  have hfallback : inner.fallback = some (String.ofList front) := by
    rw [Placeholder.fallback, hcut, Option.map_some, Placeholder.parts_iff.mp hfront]
  rw [resolve, if_neg (by simpa using hname), isUnset_iff.mp hunset, hfallback]
  exact congrArg Except.ok String.toList_ofList

theorem resolve_of_cut_eq_none (hname : inner.name ≠ "") (hunset : IsUnset env.value? inner.name)
    (hcut : (Placeholder.cut inner).2 = none) :
    env.resolve inner =
      if env.allowMissing then .ok inner.written else .error (missing inner.name) := by
  have hfallback : inner.fallback = none := by rw [Placeholder.fallback, hcut, Option.map_none]
  rw [resolve, if_neg (by simpa using hname), isUnset_iff.mp hunset, hfallback]

/-- A placeholder resolves to what stands in its place, unless it lacks a variable that may not be
missing. -/
theorem resolve_cases (inner : Placeholder) :
    (∃ part, env.resolve inner = .ok part ∧
      Replaces env.value? env.allowMissing (.placeholder inner) part) ∨
    env.allowMissing = false ∧ Lacks env.value? inner ∧
      env.resolve inner = .error (missing inner.name) := by
  have hask := asks_name inner
  by_cases hname : inner.name = ""
  · exact Or.inl ⟨_, env.resolve_of_name_eq hname, .nameless (hname ▸ hask)⟩
  by_cases hunset : IsUnset env.value? inner.name
  · cases hcut : (Placeholder.cut inner).2 with
    | some text =>
      have hfront := Placeholder.parts_cut text
      exact Or.inl ⟨_, env.resolve_of_fallback hname hunset hcut hfront,
        .fallback (hcut ▸ hask) hname hunset hfront⟩
    | none =>
      have hresolve := env.resolve_of_cut_eq_none hname hunset hcut
      cases hallowed : env.allowMissing with
      | true => exact Or.inl ⟨_, by simpa [hallowed] using hresolve,
          .kept (hcut ▸ hask) hname hunset rfl⟩
      | false =>
        exact Or.inr ⟨rfl, ⟨_, hcut ▸ hask, hname, hunset⟩, by simpa [hallowed] using hresolve⟩
  · obtain ⟨value, hlook, hvalue⟩ : ∃ value, env.value? inner.name = some value ∧ value ≠ "" := by
      simpa [IsUnset] using hunset
    exact Or.inl ⟨_, env.resolve_of_value hname hlook hvalue, .value hask hname hlook hvalue⟩

theorem resolve_of_replaces {part : List Char}
    (h : Replaces env.value? env.allowMissing (.placeholder inner) part) :
    env.resolve inner = .ok part := by
  cases h with
  | nameless hask => exact env.resolve_of_name_eq (asks_iff.mp hask).1.symm
  | value hask hname hlook hvalue =>
    obtain ⟨rfl, _⟩ := asks_iff.mp hask
    exact env.resolve_of_value hname hlook hvalue
  | fallback hask hname hunset hfront =>
    obtain ⟨rfl, hcut⟩ := asks_iff.mp hask
    exact env.resolve_of_fallback hname hunset hcut.symm hfront
  | kept hask hname hunset hallowed =>
    obtain ⟨rfl, hcut⟩ := asks_iff.mp hask
    rw [env.resolve_of_cut_eq_none hname hunset hcut.symm, if_pos hallowed]

theorem resolve_of_lacks (h : Lacks env.value? inner) (hstrict : env.allowMissing = false) :
    env.resolve inner = .error (missing inner.name) := by
  obtain ⟨_, hask, hname, hunset⟩ := h
  obtain ⟨rfl, hcut⟩ := asks_iff.mp hask
  rw [env.resolve_of_cut_eq_none hname hunset hcut.symm, hstrict]
  rfl

theorem exists_resolve_iff :
    (∃ part, env.resolve inner = .ok part) ↔
      (env.allowMissing = true ∨ ¬ Lacks env.value? inner) := by
  constructor
  · rintro ⟨part, hok⟩
    by_contra hnot
    rw [not_or, not_not, Bool.not_eq_true] at hnot
    exact absurd (hok.symm.trans (env.resolve_of_lacks hnot.2 hnot.1)) (by simp)
  · intro h
    rcases env.resolve_cases inner with ⟨part, hok, _⟩ | ⟨hstrict, hlacks, _⟩
    · exact ⟨part, hok⟩
    · rcases h with hallowed | hnot
      · exact absurd (hstrict.symm.trans hallowed) (by simp)
      · exact absurd hlacks hnot

/-! ## Pieces -/

/-- What stands in place of a piece is what it expands to. -/
theorem expandPiece_eq_ok_iff {piece : Piece} {part : List Char} :
    env.expandPiece piece = .ok part ↔ Replaces env.value? env.allowMissing piece part := by
  cases piece with
  | plain c =>
    constructor
    · intro h
      obtain rfl := Except.ok.inj h
      exact .plain c
    · rintro ⟨⟩
      rfl
  | placeholder inner =>
    refine ⟨fun h => ?_, env.resolve_of_replaces⟩
    rcases env.resolve_cases inner with ⟨part', hok, hreplaces⟩ | ⟨_, _, herror⟩
    · obtain rfl := Except.ok.inj (hok.symm.trans h)
      exact hreplaces
    · exact absurd (herror.symm.trans h) (by simp)

theorem expandPieces_eq (pieces : List Piece) :
    env.expandPieces pieces = (pieces.mapM env.expandPiece).map List.flatten := by
  induction pieces with
  | nil => rfl
  | cons piece pieces ih =>
    rw [expandPieces, ih, List.mapM_cons]
    cases env.expandPiece piece with
    | error f => rfl
    | ok part => cases pieces.mapM env.expandPiece <;> rfl

/-! ## Texts -/

theorem expandText_eq_ok_iff {text result : String} :
    env.expandText text = .ok result ↔ Expands env.value? env.allowMissing text result := by
  rw [expandText, expandPieces_eq, Outcome.map_eq_ok]
  simp only [Outcome.map_eq_ok, Outcome.mapM_eq_ok_iff, expandPiece_eq_ok_iff]
  constructor
  · rintro ⟨_, ⟨parts, hparts, rfl⟩, rfl⟩
    exact ⟨_, parts, Piece.found_iff.mpr rfl, hparts, String.toList_ofList⟩
  · rintro ⟨_, parts, hfound, hparts, hresult⟩
    rw [Piece.found_iff] at hfound
    exact ⟨_, ⟨parts, hfound ▸ hparts, rfl⟩, by rw [← hresult, String.ofList_toList]⟩

theorem misses_iff {look : String → Option String} {text : String} :
    Misses look text ↔ ∃ inner, .placeholder inner ∈ Piece.scan text.toList ∧ Lacks look inner := by
  simp only [Misses, Piece.found_iff, exists_eq_left']

theorem exists_expandPiece_iff {piece : Piece} :
    (∃ part, env.expandPiece piece = .ok part) ↔
      (env.allowMissing = true ∨
        ∀ inner, piece = .placeholder inner → ¬ Lacks env.value? inner) := by
  cases piece with
  | plain c => exact iff_of_true ⟨_, rfl⟩ (Or.inr nofun)
  | placeholder inner =>
    rw [expandPiece, exists_resolve_iff]
    simp

/-- A text is expanded unless it misses a variable that may not be missing. -/
theorem exists_expandText_iff {text : String} :
    (∃ result, env.expandText text = .ok result) ↔
      (env.allowMissing = true ∨ ¬ Misses env.value? text) := by
  rw [expandText, expandPieces_eq, Outcome.exists_map_iff, Outcome.exists_map_iff,
    Outcome.exists_mapM_iff, misses_iff]
  simp only [exists_expandPiece_iff]
  cases env.allowMissing with
  | true => simp
  | false =>
    simp only [Bool.false_eq_true, false_or, not_exists, not_and]
    exact ⟨fun h inner hinner => h _ hinner inner rfl,
      fun h _ hpiece inner hinner => h inner (hinner ▸ hpiece)⟩

/-- Whether an outcome, if it is a failure, is that of a bad settings file. -/
abbrev BlamesSettings {α : Type} (x : Except Failure α) : Prop :=
  Outcome.Ends (fun f => ∃ message, f = .settings message) (fun _ => True) x

theorem blamesSettings_map {α β : Type} {x : Except Failure α} (h : BlamesSettings x)
    (f : α → β) : BlamesSettings (x.map f) :=
  h.map fun _ _ => trivial

theorem blamesSettings_expandPiece (piece : Piece) : BlamesSettings (env.expandPiece piece) := by
  cases piece with
  | plain c => exact trivial
  | placeholder inner =>
    rw [expandPiece]
    rcases env.resolve_cases inner with ⟨part, hok, _⟩ | ⟨_, _, herror⟩
    · rw [hok]
      exact trivial
    · rw [herror]
      exact ⟨_, rfl⟩

theorem blamesSettings_expandText (text : String) : BlamesSettings (env.expandText text) := by
  rw [expandText, expandPieces_eq]
  exact blamesSettings_map (blamesSettings_map
    (Outcome.Ends.mapM fun piece _ => env.blamesSettings_expandPiece piece) _) _

/-! ## Documents -/

theorem expandItems_eq (items : List Json) : env.expandItems items = items.mapM env.expand := by
  induction items with
  | nil => rfl
  | cons item items ih => rw [expandItems, ih, List.mapM_cons]

theorem expandMembers_eq (members : List (String × Json)) :
    env.expandMembers members =
      members.mapM fun m => (env.expand m.2).map fun value => (m.1, value) := by
  induction members with
  | nil => rfl
  | cons m members ih =>
    obtain ⟨name, value⟩ := m
    rw [expandMembers, ih, List.mapM_cons]
    cases env.expand value <;> rfl

theorem blamesSettings_expand (j : Json) : BlamesSettings (env.expand j) := by
  induction j with
  | null | bool | number => exact trivial
  | string text => exact blamesSettings_map (env.blamesSettings_expandText text) _
  | array items ih =>
    rw [expand, expandItems_eq]
    exact blamesSettings_map (Outcome.Ends.mapM ih) _
  | object members ih =>
    rw [expand, expandMembers_eq]
    exact blamesSettings_map
      (Outcome.Ends.mapM fun m hm => blamesSettings_map (ih m hm) _) _

/-- A document is expanded just if each text in it is. -/
theorem exists_expand_iff {j : Json} :
    (∃ result, env.expand j = .ok result) ↔
      ∀ text, j.HoldsText text → ∃ result, env.expandText text = .ok result := by
  induction j with
  | null | bool | number => exact iff_of_true ⟨_, rfl⟩ nofun
  | string text =>
    rw [expand, Outcome.exists_map_iff]
    refine ⟨fun h _ hholds => ?_, fun h => h text .here⟩
    cases hholds
    exact h
  | array items ih =>
    rw [expand, Outcome.exists_map_iff, expandItems_eq, Outcome.exists_mapM_iff]
    constructor
    · rintro h text (_ | ⟨hitem, hholds⟩)
      exact (ih _ hitem).mp (h _ hitem) text hholds
    · exact fun h item hitem => (ih item hitem).mpr fun text hholds => h text (.item hitem hholds)
  | object members ih =>
    rw [expand, Outcome.exists_map_iff, expandMembers_eq, Outcome.exists_mapM_iff]
    simp only [Outcome.exists_map_iff]
    constructor
    · rintro h text (_ | _ | ⟨hm, hholds⟩)
      exact (ih _ hm).mp (h _ hm) text hholds
    · exact fun h m hm => (ih m hm).mpr fun text hholds => h text (.member hm hholds)

/-- Expanding changes the texts in a document and nothing else. -/
theorem expand_eq_ok_iff {j result : Json} :
    env.expand j = .ok result ↔ j.Alike (Expands env.value? env.allowMissing) result := by
  induction j generalizing result with
  | null | bool | number =>
    constructor
    · intro h
      obtain rfl := Except.ok.inj h
      constructor
    · rintro ⟨⟩
      rfl
  | string text =>
    rw [expand, Outcome.map_eq_ok, Json.alike_string]
    simp only [expandText_eq_ok_iff]
  | array items ih =>
    rw [expand, Outcome.map_eq_ok, expandItems_eq, Json.alike_array]
    simp only [Outcome.mapM_eq_ok_iff, forall₂_iff_of_mem fun item hitem _ => ih item hitem]
  | object members ih =>
    have hmember (m m' : String × Json) :
        (env.expand m.2).map (fun value => (m.1, value)) = .ok m' ↔
          m.1 = m'.1 ∧ env.expand m.2 = .ok m'.2 := by
      rw [Outcome.map_eq_ok]
      simp only [Prod.ext_iff]
      grind
    rw [expand, Outcome.map_eq_ok, expandMembers_eq, Json.alike_object]
    simp only [Outcome.mapM_eq_ok_iff, hmember,
      forall₂_iff_of_mem fun m hm _ => and_congr_right fun _ => ih m hm]

/-- The outcome of expanding a document is one that the rules allow. -/
theorem follows_expand (j : Json) : Follows env.value? env.allowMissing j (env.expand j) := by
  have hexists := env.exists_expand_iff (j := j)
  simp only [exists_expandText_iff] at hexists
  cases hexpand : env.expand j with
  | ok result =>
    refine .expanded ?_ (env.expand_eq_ok_iff.mp hexpand)
    have hall := hexists.mp ⟨result, hexpand⟩
    by_cases hallowed : env.allowMissing = true
    · exact Or.inl hallowed
    · exact Or.inr fun text htext => (hall text htext).resolve_left hallowed
  | error f =>
    obtain ⟨message, rfl⟩ := (env.blamesSettings_expand j).error hexpand
    have hnot : ¬ ∃ result, env.expand j = .ok result := by simp [hexpand]
    simp only [hexists, not_forall, not_or, not_not, Bool.not_eq_true] at hnot
    obtain ⟨text, htext, hstrict, hmisses⟩ := hnot
    exact .refused hstrict htext hmisses message

end Environment

end WarehouseRows
