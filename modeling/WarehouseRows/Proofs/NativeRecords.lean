import Mathlib.Data.List.Forall2
import WarehouseRows.Avro.Reader

/-!
# Records whose members agree

A record is an object of some sort with members: a plain one, one that nobody answers for, or an
heir of another object. Two records of one sort whose members have the same names, in the same
order, give the same answer to every name, but for the values of their members. This holds of the
answers of the archetypes behind them too, which look at single members only to see whether they
are there, or which text they are.

## Main definitions

* `Avro.Frame`: a sort of records.
* `Avro.MembersAgree`: members with the same names and related values.

## Main results

* `Avro.fieldOf_of_membersAgree`: what two such records answer to the name of a field.
-/

namespace WarehouseRows.Avro

/-! ## Sorts of records -/

/-- A sort of records: plain ones, those that nobody answers for, and the heirs of an object. -/
inductive Frame where
  | plain
  | bare
  | heir (parent : Value)

namespace Frame

/-- The record of a sort with some members. -/
def fill : Frame → List (String × Value) → Value
  | plain, members => .record members
  | bare, members => .bare members
  | heir parent, members => .heir members parent

/-- What the objects in line behind a record hold under a name. -/
def behind? : Frame → String → Option Value
  | heir parent, name => parent.held? name
  | plain, _ | bare, _ => none

variable (frame : Frame) (members others : List (String × Value)) (name : String)

@[simp] theorem ownMembers_fill : (frame.fill members).ownMembers = members := by
  cases frame <;> rfl

@[simp] theorem isAbsent_fill : (frame.fill members).isAbsent = false := by
  cases frame <;> rfl

theorem isRecord_fill : isRecord (frame.fill members) = isRecord (frame.fill others) := by
  cases frame <;> rfl

theorem lineage_fill : (frame.fill members).lineage = (frame.fill others).lineage := by
  cases frame <;> rfl

theorem parent_fill : (frame.fill members).parent = (frame.fill others).parent := by
  cases frame <;> rfl

theorem readings_fill : (frame.fill members).readings = [] := by
  cases frame <;> rfl

/-- A record holds its members, and what is in line behind it. -/
theorem held?_fill :
    (frame.fill members).held? name = (Members.get? members name).or (frame.behind? name) := by
  cases frame with
  | plain | bare =>
    rw [fill, Value.held?.eq_def]
    dsimp only [Value.ownMembers, Value.hiddenMembers]
    cases Members.get? members name <;> rfl
  | heir parent =>
    rw [fill, Value.held?.eq_def]
    dsimp only
    cases Members.get? members name <;> rfl

theorem fieldOf_fill :
    (frame.fill members).fieldOf name =
      ((frame.fill members).answer? name).getD (.ok .missing) := by
  cases frame <;> rfl

end Frame

/-! ## Members that agree -/

/-- Whether members have the same names in the same order, and related values under each name. -/
def MembersAgree (A : String → Value → Value → Prop) (members others : List (String × Value)) :
    Prop :=
  List.Forall₂ (fun m n => m.1 = n.1 ∧ A m.1 m.2 n.2) members others

variable {A : String → Value → Value → Prop} {members others : List (String × Value)}

/-- A name is missing in both, or has related values. -/
theorem get?_of_membersAgree (h : MembersAgree A members others) (name : String) :
    (Members.get? members name = none ∧ Members.get? others name = none) ∨
      ∃ a b, Members.get? members name = some a ∧ Members.get? others name = some b ∧
        A name a b := by
  induction h with
  | nil => exact Or.inl ⟨rfl, rfl⟩
  | @cons m n members others hmember _ ih =>
    obtain ⟨first, a⟩ := m
    obtain ⟨_, b⟩ := n
    obtain ⟨rfl, hvalue⟩ := hmember
    simp only [Members.get?, List.lookup_cons]
    cases hname : name == first with
    | true =>
      obtain rfl := beq_iff_eq.mp hname
      exact Or.inr ⟨a, b, rfl, rfl, hvalue⟩
    | false => exact ih

/-- What is held under a name is the same, unless both have a member of the name. -/
theorem held?_of_membersAgree (frame : Frame) (h : MembersAgree A members others) (name : String) :
    (frame.fill members).held? name = (frame.fill others).held? name ∨
      ∃ a b, (frame.fill members).held? name = some a ∧ (frame.fill others).held? name = some b ∧
        A name a b := by
  simp only [Frame.held?_fill]
  rcases get?_of_membersAgree h name with ⟨ha, hb⟩ | ⟨a, b, ha, hb, hab⟩
  · rw [ha, hb]
    exact Or.inl rfl
  · rw [ha, hb]
    exact Or.inr ⟨a, b, rfl, rfl, hab⟩

theorem isSome_held?_of_membersAgree (frame : Frame) (h : MembersAgree A members others)
    (name : String) :
    ((frame.fill members).held? name).isSome = ((frame.fill others).held? name).isSome := by
  rcases held?_of_membersAgree frame h name with hsame | ⟨a, b, ha, hb, -⟩
  · rw [hsame]
  · rw [ha, hb]
    rfl

/-! ## Answers -/

/-- Records that agree show themselves alike. -/
theorem shown_of_membersAgree (frame : Frame) (h : MembersAgree A members others) :
    (frame.fill members).shown = (frame.fill others).shown := by
  have hlineage := frame.lineage_fill members others
  have htext := isSome_held?_of_membersAgree frame h "toString"
  have hmaker := isSome_held?_of_membersAgree frame h Archetype.makerName
  have howner : (frame.fill members).textOwner? = (frame.fill others).textOwner? := by
    rw [Value.textOwner?, Value.textOwner?, hlineage]
    cases hm : (frame.fill members).held? "toString" <;>
      cases ho : (frame.fill others).held? "toString" <;> simp_all
  have hobject : (frame.fill members).objectText = (frame.fill others).objectText := by
    rw [Value.objectText, Value.objectText, hlineage]
  rw [Value.shown, Value.shown, howner, hlineage, hobject]
  cases hm : (frame.fill members).held? Archetype.makerName <;>
    cases ho : (frame.fill others).held? Archetype.makerName <;> simp_all

variable (hA : ∀ name a b, A name a b → a = b ∨ ∀ s, a ≠ .string s ∧ b ≠ .string s)

include hA in
/-- An error leaves hope for other input by the text of its code. -/
theorem recoverable_of_membersAgree (frame : Frame) (h : MembersAgree A members others) :
    (frame.fill members).recoverable = (frame.fill others).recoverable := by
  rw [Value.recoverable, Value.recoverable]
  rcases held?_of_membersAgree frame h "code" with hsame | ⟨a, b, ha, hb, hab⟩
  · rw [hsame]
  · rw [ha, hb]
    rcases hA _ a b hab with rfl | hother
    · rfl
    · cases a with
      | string s => exact absurd rfl (hother s).1
      | _ =>
        cases b with
        | string s => exact absurd rfl (hother s).2
        | _ => rfl

include hA in
theorem answerOf_of_membersAgree (frame : Frame) (h : MembersAgree A members others)
    (k : Archetype) (name : String) :
    (frame.fill members).answerOf k name = (frame.fill others).answerOf k name := by
  simp only [Value.answerOf, Frame.readings_fill, Value.incompatible,
    shown_of_membersAgree frame h, recoverable_of_membersAgree hA frame h,
    frame.parent_fill members others]

include hA in
/-- Records that agree give the same answer to the name of a field, unless both have a member of the
name. -/
theorem fieldOf_of_membersAgree (frame : Frame) (h : MembersAgree A members others)
    (name : String) :
    (frame.fill members).fieldOf name = (frame.fill others).fieldOf name ∨
      ∃ a b, (frame.fill members).fieldOf name = .ok a ∧ (frame.fill others).fieldOf name = .ok b ∧
        A name a b := by
  simp only [Frame.fieldOf_fill, Value.answer?]
  rcases held?_of_membersAgree frame h name with hsame | ⟨a, b, ha, hb, hab⟩
  · left
    rw [hsame, frame.lineage_fill members others]
    simp only [answerOf_of_membersAgree hA frame h]
  · rw [ha, hb]
    exact Or.inr ⟨a, b, rfl, rfl, hab⟩

end WarehouseRows.Avro
