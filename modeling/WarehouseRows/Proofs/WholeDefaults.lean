import WarehouseRows.Proofs.EnvironmentAnswers

/-!
# Defaults of variables

The default of a placeholder stands in its place where the variable is unset. It is taken up to the
next mark in it, so that a default with a mark loses what stands behind; all other defaults are
taken whole.

## Main definitions

* `Defaulted`: a placeholder with a default, and the text around it.
-/

namespace WarehouseRows

/-! ## Placeholders with a default -/

/-- A placeholder with a default, and the text around it. -/
structure Defaulted where
  before : String
  name : String
  fallback : String
  behind : String
  before_plain : '$' ∉ before.toList
  name_open : '}' ∉ name.toList
  name_whole : ¬ Placeholder.mark <:+: name.toList
  name_ne : String.ofList (Text.trimChars name.toList) ≠ ""
  fallback_open : '}' ∉ fallback.toList
  behind_plain : '$' ∉ behind.toList

namespace Defaulted

variable (d : Defaulted)

/-- What stands in the braces. -/
def inner : Placeholder :=
  d.name.toList ++ Placeholder.mark ++ d.fallback.toList

/-- The variable that is asked for. -/
def variableName : String :=
  String.ofList (Text.trimChars d.name.toList)

/-- The text around the placeholder, with a text in place of it. -/
def filled (text : String) : String :=
  d.before ++ text ++ d.behind

/-- The text with the placeholder. -/
def text : String :=
  d.filled ("$\x7b" ++ d.name ++ ":-" ++ d.fallback ++ "\x7d")

theorem filled_inj {text text' : String} : d.filled text = d.filled text' ↔ text = text' := by
  simp [filled, ← String.toList_inj]

theorem isInner : d.inner.IsInner := by
  refine ⟨by simp [inner, Placeholder.mark], ?_⟩
  simp [inner, Placeholder.mark, d.name_open, d.fallback_open]

theorem asks : d.inner.Asks d.variableName (some d.fallback.toList) :=
  ⟨_, .split _ d.name_whole, rfl⟩

theorem scan_text :
    Piece.scan d.text.toList =
      d.before.toList.map .plain ++ .placeholder d.inner :: d.behind.toList.map .plain := by
  have htext : d.text.toList = d.before.toList ++ (d.inner.written ++ d.behind.toList) := by
    simp [text, filled, inner, Placeholder.written, Placeholder.mark]
  have hbehind := Piece.scan_append d.behind_plain []
  rw [List.append_nil, Piece.scan, List.append_nil] at hbehind
  rw [htext, Piece.scan_append d.before_plain, Piece.scan_written_append d.isInner, hbehind]

end Defaulted

/-! ## What they expand to -/

namespace Environment

variable (env : Environment)

theorem expandPieces_plain_append (cs : List Char) (pieces : List Piece) :
    env.expandPieces (cs.map .plain ++ pieces) = (env.expandPieces pieces).map (cs ++ ·) := by
  induction cs with
  | nil => cases h : env.expandPieces pieces <;> simp [h, Except.map]
  | cons c cs ih =>
    rw [List.map_cons, List.cons_append, expandPieces, ih]
    cases env.expandPieces pieces <;> rfl

theorem expandPieces_plain (cs : List Char) : env.expandPieces (cs.map .plain) = .ok cs := by
  have h := env.expandPieces_plain_append cs []
  rwa [List.append_nil, expandPieces, Except.map, List.append_nil] at h

/-- What stands in place of the placeholder does so in the text around it. -/
theorem expand_of_replaces {d : Defaulted} {part : List Char}
    (h : Replaces env.value? env.allowMissing (.placeholder d.inner) part) :
    env.expand (.string d.text) = .ok (.string (d.filled (String.ofList part))) := by
  have hpieces : env.expandPieces (Piece.scan d.text.toList) =
      .ok (d.before.toList ++ (part ++ d.behind.toList)) := by
    rw [d.scan_text, expandPieces_plain_append, expandPieces, env.expandPiece_eq_ok_iff.mpr h,
      expandPieces_plain]
    rfl
  rw [expand, expandText, hpieces]
  simp [Except.map, Defaulted.filled, ← String.toList_inj]

/-- A variable that is unset has its default, up to the next mark in it, in its place, and so the
whole default just if there is no mark in it. A shared name that no variable has is answered
instead. -/
theorem expand_fallback (d : Defaulted) (h : IsUnset env.vars.get? d.variableName) :
    (d.variableName ∈ env.vars.names ∨ d.variableName ∉ sharedNames →
      (∃ front more, Placeholder.Parts d.fallback.toList front more ∧
        env.expand (.string d.text) = .ok (.string (d.filled (String.ofList front)))) ∧
      (env.expand (.string d.text) = .ok (.string (d.filled d.fallback)) ↔
        ¬ Placeholder.mark <:+: d.fallback.toList)) ∧
    (d.variableName ∉ env.vars.names → d.variableName ∈ sharedNames →
      ∃ answer, env.value? d.variableName = some answer ∧ answer ≠ "" ∧
        env.expand (.string d.text) = .ok (.string (d.filled answer))) := by
  constructor
  · intro hname
    have hunset : IsUnset env.value? d.variableName := by
      rw [IsUnset, env.value?_eq_get?_iff.mpr hname]
      exact h
    have hparts := Placeholder.parts_cut d.fallback.toList
    have hexpand := env.expand_of_replaces (.fallback d.asks d.name_ne hunset hparts)
    refine ⟨⟨_, _, hparts, hexpand⟩, ?_⟩
    rw [hexpand, ← hparts.eq_iff, Except.ok.injEq, Json.string.injEq, d.filled_inj]
    rw [← String.toList_inj, String.toList_ofList]
  · intro hmem hshared
    obtain ⟨answer, hanswer, hne⟩ := exists_answer hshared
    rw [← env.value?_of_not_mem hmem] at hanswer
    have hexpand := env.expand_of_replaces (.value d.asks d.name_ne hanswer hne)
    rw [String.ofList_toList] at hexpand
    exact ⟨answer, hanswer, hne, hexpand⟩

/-- A default without a mark is taken whole, dollar signs and all. -/
theorem expand_fallback_dollars :
    IsUnset (Members.get? []) "A" ∧
      expand { vars := [] } (.string "<$\x7b A :-$&-$\x7b1\x7d>") =
        .ok (.string "<$&-$\x7b1>") := by
  let d : Defaulted :=
    { before := "<", name := " A ", fallback := "$&-$\x7b1", behind := ">"
      before_plain := by decide, name_open := by decide, name_whole := by decide
      name_ne := by decide, fallback_open := by decide, behind_plain := by decide }
  have hunset : IsUnset (Members.get? []) d.variableName := isUnset_of_eq_none rfl
  have hname : d.variableName ∉ sharedNames := by decide
  have hwhole : ¬ Placeholder.mark <:+: d.fallback.toList := by decide
  have hexpand := ((expand_fallback { vars := [] } d hunset).1 (Or.inr hname)).2.mpr hwhole
  exact ⟨isUnset_of_eq_none rfl, hexpand⟩

/-- A default with a mark in it loses what stands behind. -/
theorem expand_secondMark :
    expand { vars := [] } (.string "$\x7bA:-x:-y\x7d") = .ok (.string "x") ∧
      ¬ ∀ (env : Environment) (d : Defaulted), IsUnset env.vars.get? d.variableName →
        env.expand (.string d.text) = .ok (.string (d.filled d.fallback)) := by
  let d : Defaulted :=
    { before := "", name := "A", fallback := "x:-y", behind := ""
      before_plain := by decide, name_open := by decide, name_whole := by decide
      name_ne := by decide, fallback_open := by decide, behind_plain := by decide }
  have hunset : IsUnset (value? { vars := [] }) d.variableName := by
    refine isUnset_of_eq_none ?_
    rw [(value?_eq_get?_iff { vars := [] }).mpr (Or.inr (by decide))]
    rfl
  have hparts : Placeholder.Parts d.fallback.toList ['x'] (some ['y']) :=
    Placeholder.parts_iff.mpr (by decide)
  have hexpand := expand_of_replaces { vars := [] } (.fallback d.asks d.name_ne hunset hparts)
  refine ⟨hexpand, fun hall => ?_⟩
  have hclaimed := hall { vars := [] } d (isUnset_of_eq_none rfl)
  rw [hexpand, Except.ok.injEq, Json.string.injEq, d.filled_inj] at hclaimed
  exact absurd hclaimed (by decide)

end Environment

end WarehouseRows
