import WarehouseRows.Json.Parent
import WarehouseRows.Proofs.ExpandedDocuments

/-!
# What environments answer

An environment answers to a name with the value of its variable. To a few names, those that every
object answers to, it answers with a text where no variable has the name, so that they are never
missing. The outcome of expanding a document depends on the answers to the names that it mentions
and on no others, so that it is told by the variables alone unless such a name is mentioned.

## Main definitions

* `Json.HoldsName`: the names in a document.
* `Environment.sharedNames`: the names that every object answers to.
-/

namespace WarehouseRows

/-! ## Names in documents -/

namespace Json

/-- Whether a name is one of those in a document, at any depth. -/
inductive HoldsName (name : String) : Json → Prop
  | here {members : List (String × Json)} (h : name ∈ Members.names members) :
      HoldsName name (.object members)
  | item {items : List Json} {item : Json} (hitem : item ∈ items) (h : HoldsName name item) :
      HoldsName name (.array items)
  | member {members : List (String × Json)} {m : String × Json} (hm : m ∈ members)
      (h : HoldsName name m.2) : HoldsName name (.object members)

theorem ownItems_eq_self {items : List Json} (h : ∀ item ∈ items, own item = item) :
    ownItems items = items := by
  induction items with
  | nil => rfl
  | cons item items ih =>
    rw [ownItems, h item List.mem_cons_self, ih fun i hi => h i (List.mem_cons_of_mem _ hi)]

theorem ownMembers_eq_self {members : List (String × Json)}
    (hnames : Members.reservedName ∉ Members.names members) (h : ∀ m ∈ members, own m.2 = m.2) :
    ownMembers members = members := by
  induction members with
  | nil => rfl
  | cons m members ih =>
    obtain ⟨name, value⟩ := m
    rw [Members.names, List.map_cons, List.mem_cons, not_or] at hnames
    rw [ownMembers, if_neg (Ne.symm hnames.1), h _ List.mem_cons_self,
      ih hnames.2 fun m hm => h m (List.mem_cons_of_mem _ hm)]

/-- A document without the reserved name has no parents to leave out. -/
theorem own_eq_self {j : Json} (h : ¬ j.HoldsName Members.reservedName) : j.own = j := by
  induction j with
  | null | bool | number | string => rfl
  | array items ih =>
    rw [own, ownItems_eq_self fun item hitem => ih item hitem fun hname => h (.item hitem hname)]
  | object members ih =>
    rw [own, ownMembers_eq_self (fun hname => h (.here hname))
      fun m hm => ih m hm fun hname => h (.member hm hname)]

theorem exists_alike_of_mem {rule : String → String → Prop} {items items' : List Json}
    (h : List.Forall₂ (Alike rule) items items') {item' : Json} (hitem' : item' ∈ items') :
    ∃ item ∈ items, Alike rule item item' := by
  induction h with
  | nil => exact absurd hitem' List.not_mem_nil
  | cons hfirst hrest ih =>
    rcases List.mem_cons.mp hitem' with rfl | hitem'
    · exact ⟨_, List.mem_cons_self, hfirst⟩
    · obtain ⟨item, hitem, halike⟩ := ih hitem'
      exact ⟨item, List.mem_cons_of_mem _ hitem, halike⟩

/-- Documents that differ in their strings only have the same names. -/
theorem HoldsName.of_alike {rule : String → String → Prop} {j result : Json} {name : String}
    (h : result.HoldsName name) (halike : j.Alike rule result) : j.HoldsName name := by
  induction h generalizing j with
  | here hname =>
    cases halike with
    | object hnames _ =>
      rw [Members.names, ← hnames] at hname
      exact .here hname
  | item hitem _ ih =>
    cases halike with
    | array hitems =>
      obtain ⟨item, hitem, halike⟩ := exists_alike_of_mem hitems hitem
      exact .item hitem (ih halike)
  | member hm _ ih =>
    cases halike with
    | object _ hvalues =>
      obtain ⟨value, hvalue, halike⟩ := exists_alike_of_mem hvalues (List.mem_map_of_mem hm)
      obtain ⟨m, hm, rfl⟩ := List.mem_map.mp hvalue
      exact .member hm (ih halike)

/-- Documents are alike for two relations between strings that are the same on the strings in the
first. -/
theorem alike_congr {rule rule' : String → String → Prop} {j result : Json}
    (h : ∀ text, j.HoldsText text → ∀ text', rule text text' ↔ rule' text text') :
    j.Alike rule result ↔ j.Alike rule' result := by
  induction j generalizing result with
  | null | bool | number =>
    constructor
    · rintro ⟨⟩
      constructor
    · rintro ⟨⟩
      constructor
  | string text => simp only [alike_string, h text .here]
  | array items ih =>
    have hitem (item : Json) (hmem : item ∈ items) (result : Json) :
        item.Alike rule result ↔ item.Alike rule' result :=
      ih item hmem fun text htext => h text (.item hmem htext)
    simp only [alike_array, forall₂_iff_of_mem hitem]
  | object members ih =>
    have hmember (m : String × Json) (hmem : m ∈ members) (m' : String × Json) :
        m.1 = m'.1 ∧ m.2.Alike rule m'.2 ↔ m.1 = m'.1 ∧ m.2.Alike rule' m'.2 :=
      and_congr_right fun _ => ih m hmem fun text htext => h text (.member hmem htext)
    simp only [alike_object, forall₂_iff_of_mem hmember]

end Json

/-! ## The variables that a document mentions -/

namespace Environment

theorem mem_mentionedIn {text name : String} :
    name ∈ mentionedIn text ↔
      ∃ inner, .placeholder inner ∈ Piece.scan text.toList ∧ inner.name = name := by
  rw [mentionedIn, List.mem_filterMap]
  constructor
  · rintro ⟨_ | inner, hpiece, hname⟩
    · exact absurd hname (by simp)
    · exact ⟨inner, hpiece, Option.some.inj hname⟩
  · rintro ⟨inner, hpiece, rfl⟩
    exact ⟨_, hpiece, rfl⟩

theorem mentionedByItems_eq (items : List Json) :
    mentionedByItems items = items.flatMap mentioned := by
  induction items with
  | nil => rfl
  | cons item items ih => rw [mentionedByItems, ih, List.flatMap_cons]

theorem mentionedByMembers_eq (members : List (String × Json)) :
    mentionedByMembers members = members.flatMap fun m => mentioned m.2 := by
  induction members with
  | nil => rfl
  | cons m members ih => rw [mentionedByMembers, ih, List.flatMap_cons]

/-- A document mentions what the strings in it do. -/
theorem mem_mentioned {j : Json} {text name : String} (h : j.HoldsText text)
    (hname : name ∈ mentionedIn text) : name ∈ mentioned j := by
  induction h with
  | here => exact hname
  | item hitem _ ih =>
    rw [mentioned, mentionedByItems_eq]
    exact List.mem_flatMap.mpr ⟨_, hitem, ih⟩
  | member hm _ ih =>
    rw [mentioned, mentionedByMembers_eq]
    exact List.mem_flatMap.mpr ⟨_, hm, ih⟩

section Agreement

variable {look look' : String → Option String} {allowMissing : Bool}

theorem isUnset_congr {name : String} (h : look name = look' name) :
    IsUnset look name ↔ IsUnset look' name := by
  rw [IsUnset, IsUnset, h]

theorem lacks_congr {inner : Placeholder} (h : look inner.name = look' inner.name) :
    Lacks look inner ↔ Lacks look' inner := by
  refine exists_congr fun name => and_congr_right fun hask => and_congr_right fun _ => ?_
  obtain ⟨rfl, _⟩ := asks_iff.mp hask
  exact isUnset_congr h

theorem Replaces.congr {piece : Piece} {part : List Char}
    (h : ∀ inner, piece = .placeholder inner → look inner.name = look' inner.name)
    (hreplaces : Replaces look allowMissing piece part) :
    Replaces look' allowMissing piece part := by
  cases hreplaces with
  | plain c => exact .plain c
  | nameless hask => exact .nameless hask
  | value hask hname hlook hvalue =>
    obtain ⟨rfl, _⟩ := asks_iff.mp hask
    exact .value hask hname ((h _ rfl).symm.trans hlook) hvalue
  | fallback hask hname hunset hfront =>
    obtain ⟨rfl, _⟩ := asks_iff.mp hask
    exact .fallback hask hname ((isUnset_congr (h _ rfl)).mp hunset) hfront
  | kept hask hname hunset hallowed =>
    obtain ⟨rfl, _⟩ := asks_iff.mp hask
    exact .kept hask hname ((isUnset_congr (h _ rfl)).mp hunset) hallowed

theorem misses_congr {text : String} (h : ∀ name ∈ mentionedIn text, look name = look' name) :
    Misses look text ↔ Misses look' text := by
  rw [misses_iff, misses_iff]
  exact exists_congr fun inner => and_congr_right fun hinner =>
    lacks_congr (h _ (mem_mentionedIn.mpr ⟨inner, hinner, rfl⟩))

theorem expands_congr {text result : String}
    (h : ∀ name ∈ mentionedIn text, look name = look' name) :
    Expands look allowMissing text result ↔ Expands look' allowMissing text result := by
  refine exists_congr fun pieces => exists_congr fun parts => and_congr_right fun hfound => ?_
  have hlook (inner : Placeholder) (hpiece : .placeholder inner ∈ pieces) :
      look inner.name = look' inner.name :=
    h _ (mem_mentionedIn.mpr ⟨inner, Piece.found_iff.mp hfound ▸ hpiece, rfl⟩)
  have hreplaces (piece : Piece) (hpiece : piece ∈ pieces) (part : List Char) :
      Replaces look allowMissing piece part ↔ Replaces look' allowMissing piece part := by
    refine ⟨Replaces.congr ?_, Replaces.congr ?_⟩
    · rintro inner rfl
      exact hlook inner hpiece
    · rintro inner rfl
      exact (hlook inner hpiece).symm
  rw [forall₂_iff_of_mem hreplaces]

/-- Look-ups that agree on what a document mentions allow the same outcomes. -/
theorem Follows.congr {j : Json} {x : Except Failure Json}
    (h : ∀ name ∈ mentioned j, look name = look' name)
    (hfollows : Follows look allowMissing j x) : Follows look' allowMissing j x := by
  have hmisses (text : String) (htext : j.HoldsText text) :
      Misses look text ↔ Misses look' text :=
    misses_congr fun name hname => h name (mem_mentioned htext hname)
  have hexpands (text : String) (htext : j.HoldsText text) (text' : String) :
      Expands look allowMissing text text' ↔ Expands look' allowMissing text text' :=
    expands_congr fun name hname => h name (mem_mentioned htext hname)
  cases hfollows with
  | refused hstrict htext hlacking message =>
    exact .refused hstrict htext ((hmisses _ htext).mp hlacking) message
  | expanded hnone halike =>
    refine .expanded (hnone.imp_right fun hall text htext => ?_) ?_
    · rw [← hmisses text htext]
      exact hall text htext
    · exact (Json.alike_congr hexpands).mp halike

end Agreement

end Environment

/-! ## Variables and shared names -/

namespace Environment

/-- The names that every object answers to. -/
def sharedNames : List String :=
  Archetype.makerName :: Members.reservedName :: Archetype.object.functions

theorem member_eq_missing {name : String} (h : name ∉ sharedNames) :
    (Value.record []).member name = .missing := by
  simp only [sharedNames, List.mem_cons, not_or] at h
  have hfunction : Archetype.object.function? name = none := by
    rw [Archetype.function?, if_neg h.1, if_neg (by simpa using h.2.2)]
  have hheld : (Value.record []).held? name = none := rfl
  have hlineage : (Value.record []).lineage = [.object] := rfl
  have hanswer : (Value.record []).answer? name = none := by
    rw [Value.answer?, hheld, hlineage]
    simp [Value.answerOf, hfunction, Archetype.guarded, h.2.1, Value.constants, Members.get?]
  rw [Value.member, hanswer]

/-- A shared name is answered with a text that is not empty. -/
theorem exists_answer {name : String} (h : name ∈ sharedNames) :
    ∃ text, value? { vars := [] } name = some text ∧ text ≠ "" := by
  have hall : ∀ n ∈ sharedNames,
      (value? { vars := [] } n).any (fun text => !text.isEmpty) = true := by decide
  obtain ⟨text, htext, hne⟩ := (Option.any_eq_true _ _).mp (hall name h)
  exact ⟨text, htext, by simpa using hne⟩

variable (env : Environment)

theorem value?_of_mem {name : String} (h : name ∈ env.vars.names) :
    env.value? name = env.vars.get? name := by
  obtain ⟨value, hvalue⟩ := Members.exists_get? h
  rw [value?, hvalue]

/-- Where no variable has a name, the environment answers as an empty one does. -/
theorem value?_of_not_mem {name : String} (h : name ∉ env.vars.names) :
    env.value? name = value? { vars := [] } name := by
  rw [value?, Members.get?_eq_none h]
  rfl

/-- An environment answers with the value of a variable, except to shared names that no variable
has. -/
theorem value?_eq_get?_iff {name : String} :
    env.value? name = env.vars.get? name ↔ name ∈ env.vars.names ∨ name ∉ sharedNames := by
  by_cases hmem : name ∈ env.vars.names
  · exact iff_of_true (env.value?_of_mem hmem) (Or.inl hmem)
  · rw [env.value?_of_not_mem hmem, Members.get?_eq_none hmem]
    by_cases hshared : name ∈ sharedNames
    · obtain ⟨text, htext, _⟩ := exists_answer hshared
      exact iff_of_false (by simp [htext]) (by simp [hmem, hshared])
    · refine iff_of_true ?_ (Or.inr hshared)
      rw [value?, member_eq_missing hshared]
      rfl

/-- The outcome of expanding a document is one that the rules allow for what the environment
answers, which is the value of a variable except for shared names that no variable has. Where none
of these is mentioned, the rules allow the outcome for the variables themselves. A document without
the reserved name keeps its names, so that what is expanded has no parents either. -/
theorem expanded_follows {j : Json} (h : ¬ j.HoldsName Members.reservedName) :
    Follows env.value? env.allowMissing j ((env.expand j).map Json.own) ∧
      (∀ name, env.value? name = env.vars.get? name ↔
        name ∈ env.vars.names ∨ name ∉ sharedNames) ∧
      ((∀ name ∈ mentioned j, name ∈ env.vars.names ∨ name ∉ sharedNames) →
        Follows env.vars.get? env.allowMissing j ((env.expand j).map Json.own)) := by
  have hown : (env.expand j).map Json.own = env.expand j := by
    cases hexpand : env.expand j with
    | error f => rfl
    | ok result =>
      have hresult : ¬ result.HoldsName Members.reservedName :=
        fun hname => h (hname.of_alike (env.expand_eq_ok_iff.mp hexpand))
      exact congrArg Except.ok (Json.own_eq_self hresult)
  have hfollows := env.follows_expand j
  rw [hown]
  refine ⟨hfollows, fun name => env.value?_eq_get?_iff, fun hmentioned => ?_⟩
  exact hfollows.congr fun name hname => env.value?_eq_get?_iff.mpr (hmentioned name hname)

/-- A variable that is set and the default of an empty one, in a document with names and a value
that is no text. -/
theorem expanded_follows_settings :
    Follows (Members.get? [("M", "up"), ("L", "")]) false
      (.object [("m", .string "<$\x7bM\x7d>"),
        ("l", .array [.string "$\x7bL:-d\x7d", .bool true])])
      (.ok (.object [("m", .string "<up>"), ("l", .array [.string "d", .bool true])])) := by
  have hnames : ¬ Json.HoldsName Members.reservedName
      (.object [("m", .string "<$\x7bM\x7d>"),
        ("l", .array [.string "$\x7bL:-d\x7d", .bool true])]) := by
    rintro (hname | _ | ⟨hm, hname⟩)
    · exact absurd hname (by decide)
    · simp only [List.mem_cons, List.not_mem_nil, or_false] at hm
      rcases hm with rfl | rfl
      · cases hname
      · cases hname with
        | item hitem hname =>
          simp only [List.mem_cons, List.not_mem_nil, or_false] at hitem
          rcases hitem with rfl | rfl <;> cases hname
  have hset : expandText { vars := [("M", "up"), ("L", "")] } "<$\x7bM\x7d>" = .ok "<up>" := by
    have hscan : Piece.scan "<$\x7bM\x7d>".toList =
        [.plain '<', .placeholder ['M'], .plain '>'] := by
      decide
    rw [expandText, hscan]
    rfl
  have hdefault : expandText { vars := [("M", "up"), ("L", "")] } "$\x7bL:-d\x7d" = .ok "d" := by
    have hscan : Piece.scan "$\x7bL:-d\x7d".toList = [.placeholder ['L', ':', '-', 'd']] := by
      decide
    rw [expandText, hscan]
    rfl
  have hfollows :=
    (expanded_follows { vars := [("M", "up"), ("L", "")] } hnames).2.2 (by decide)
  simpa [expand, expandMembers, expandItems, hset, hdefault, Except.map, Json.own, Json.ownMembers,
    Json.ownItems, Members.reservedName] using hfollows

/-- A shared name that no variable has is not missed. -/
theorem expand_sharedName :
    expand { vars := [] } (.string "$\x7bconstructor\x7d") =
        .ok (.string "function Object() \x7b [native code] \x7d") ∧
      ¬ Follows (Members.get? []) false (.string "$\x7bconstructor\x7d")
        (expand { vars := [] } (.string "$\x7bconstructor\x7d")) := by
  have hscan : Piece.scan "$\x7bconstructor\x7d".toList = [.placeholder "constructor".toList] := by
    decide
  have hanswer : value? { vars := [] } "constructor" =
      some "function Object() \x7b [native code] \x7d" := by
    decide
  have hresolve : resolve { vars := [] } "constructor".toList =
      .ok "function Object() \x7b [native code] \x7d".toList :=
    resolve_of_value _ (by decide) hanswer (by decide)
  have hexpand : expand { vars := [] } (.string "$\x7bconstructor\x7d") =
      .ok (.string "function Object() \x7b [native code] \x7d") := by
    rw [expand, expandText, hscan, expandPieces, expandPiece, hresolve, expandPieces]
    simp only [Outcome.ok_bind, pure, Except.pure, Except.map, List.append_nil,
      String.ofList_toList]
  refine ⟨hexpand, ?_⟩
  have hlacks : Lacks (Members.get? []) "constructor".toList :=
    ⟨"constructor", asks_iff.mpr ⟨by decide, by decide⟩, by decide, isUnset_of_eq_none rfl⟩
  have hmisses : Misses (Members.get? []) "$\x7bconstructor\x7d" :=
    misses_iff.mpr ⟨_, by rw [hscan]; exact List.mem_singleton_self _, hlacks⟩
  rw [hexpand]
  rintro (_ | ⟨hnone, _⟩)
  exact hnone.elim (by decide) fun h => h _ .here hmisses

end Environment

end WarehouseRows
