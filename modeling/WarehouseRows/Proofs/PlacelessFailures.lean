import WarehouseRows.Proofs.Outcome
import WarehouseRows.Row.CellText

/-!
# Failures that name no field

Only a row knows the names of its fields. What is computed from a single value, such as its text,
knows of no field, and neither do its failures: the parts of the value may be any values, but what
goes wrong with them is told by a message alone.

## Main definitions

* `ConversionError.Placeless`, `Failure.Placeless`: failures that name no field.
* `Outcome.Placeless`: outcomes that fail in no other way.
* `Operand.Placeless`, `Parts.Placeless`: operands whose text does not, and parts of that sort.
-/

namespace WarehouseRows

/-- Whether a conversion error names no field. -/
def ConversionError.Placeless (e : ConversionError) : Prop :=
  e.field = none

/-- Whether a failure names no field. -/
def Failure.Placeless (f : Failure) : Prop :=
  f.toConversion.Placeless

/-- Whether an outcome, if it is a failure, names no field. -/
abbrev Outcome.Placeless {α : Type} (x : Except Failure α) : Prop :=
  Outcome.Ends Failure.Placeless (fun _ => True) x

open Outcome (Ends)

/-! ## Integers of a bounded size -/

theorem Decimal.placeless_product (a b : Int) : Outcome.Placeless (Decimal.product a b) := by
  rw [product]
  split
  · exact trivial
  · exact rfl

theorem Decimal.placeless_powerOfTen (n : Nat) : Outcome.Placeless (Decimal.powerOfTen n) := by
  rw [powerOfTen]
  split
  · exact trivial
  · exact rfl

theorem Decimal.placeless_timesPower (n : Int) (zeros : Nat) :
    Outcome.Placeless (timesPower n zeros) := by
  rw [timesPower]
  split
  · exact trivial
  · exact (placeless_powerOfTen zeros).bind fun factor _ => placeless_product n factor

/-! ## Operands -/

namespace Operand

/-- Whether an operand fails to have a text, if it does, without naming a field. -/
def Placeless (x : Operand) : Prop :=
  Outcome.Placeless (x.text ())

variable {a b x : Operand}

theorem placeless_ofNumber (d : Double) : (ofNumber d).Placeless := trivial

theorem placeless_ofNat (n : Nat) : (ofNat n).Placeless := trivial

theorem placeless_ofInteger (n : Int) : (ofInteger n).Placeless := trivial

theorem placeless_missing : missing.Placeless := trivial

theorem placeless_scalar (hx : x.Placeless) : Outcome.Placeless x.scalar := by
  rw [scalar]
  split
  iterate 7 exact trivial
  split
  · exact rfl
  · exact hx.map fun _ _ => trivial

theorem placeless_numeric (hx : x.Placeless) : Outcome.Placeless x.numeric :=
  (placeless_scalar hx).map fun _ _ => trivial

theorem placeless_number (hx : x.Placeless) : Outcome.Placeless x.number := by
  refine (placeless_numeric hx).bind fun n _ => ?_
  cases n with
  | number d => exact trivial
  | integer n => exact rfl

theorem placeless_integerOf (v : Value) : Outcome.Placeless (integerOf v) := by
  cases v with
  | number d =>
    rw [integerOf, Decimal.integerOf]
    split
    · exact trivial
    · exact rfl
  | string s =>
    rw [integerOf]
    split
    · exact trivial
    · exact rfl
  | null | missing => exact rfl
  | _ => exact trivial

theorem placeless_integer (hx : x.Placeless) : Outcome.Placeless x.integer :=
  (placeless_scalar hx).bind fun v _ => placeless_integerOf v

theorem placeless_combine {onNumbers : Double → Double → Double}
    {onIntegers : Int → Int → Except Failure Int}
    (hintegers : ∀ m n, Outcome.Placeless (onIntegers m n)) (ha : a.Placeless)
    (hb : b.Placeless) : Ends Failure.Placeless Placeless (combine onNumbers onIntegers a b) := by
  refine (placeless_numeric ha).bind fun m _ => (placeless_numeric hb).bind fun n _ => ?_
  split
  · exact trivial
  · exact (hintegers _ _).map fun n _ => placeless_ofInteger n
  · exact rfl

theorem placeless_minus (ha : a.Placeless) (hb : b.Placeless) :
    Ends Failure.Placeless Placeless (a.minus b) :=
  placeless_combine (fun _ _ => trivial) ha hb

theorem placeless_times (ha : a.Placeless) (hb : b.Placeless) :
    Ends Failure.Placeless Placeless (a.times b) :=
  placeless_combine Decimal.placeless_product ha hb

theorem placeless_dividedBy (ha : a.Placeless) (hb : b.Placeless) :
    Ends Failure.Placeless Placeless (a.dividedBy b) := by
  refine placeless_combine (fun m n => ?_) ha hb
  split
  · exact rfl
  · exact trivial

theorem placeless_modulo (ha : a.Placeless) (hb : b.Placeless) :
    Ends Failure.Placeless Placeless (a.modulo b) := by
  refine placeless_combine (fun m n => ?_) ha hb
  split
  · exact rfl
  · exact trivial

theorem placeless_negated (hx : x.Placeless) : Ends Failure.Placeless Placeless x.negated := by
  refine (placeless_numeric hx).bind fun n _ => ?_
  cases n with
  | number d => exact placeless_ofNumber d.neg
  | integer n => exact placeless_ofInteger (-n)

theorem placeless_summand (hx : x.Placeless) : Outcome.Placeless x.summand := by
  rw [summand]
  split
  · exact hx.map fun _ _ => trivial
  · split
    · exact hx.map fun _ _ => trivial
    · exact placeless_scalar hx

theorem placeless_plus (ha : a.Placeless) (hb : b.Placeless) :
    Ends Failure.Placeless Placeless (a.plus b) := by
  refine (placeless_summand ha).bind fun m _ => (placeless_summand hb).bind fun n _ => ?_
  split
  · exact trivial
  · exact trivial
  · split
    · exact trivial
    · exact trivial
    · exact rfl

theorem placeless_order (ha : a.Placeless) (hb : b.Placeless) : Outcome.Placeless (a.order? b) :=
  (placeless_scalar ha).bind fun _ _ => (placeless_scalar hb).bind fun _ _ => trivial

theorem placeless_below (ha : a.Placeless) (hb : b.Placeless) : Outcome.Placeless (a.below b) :=
  (placeless_order ha hb).map fun _ _ => trivial

theorem placeless_above (ha : a.Placeless) (hb : b.Placeless) : Outcome.Placeless (a.above b) :=
  (placeless_order ha hb).map fun _ _ => trivial

theorem placeless_atMost (ha : a.Placeless) (hb : b.Placeless) : Outcome.Placeless (a.atMost b) :=
  (placeless_order ha hb).map fun _ _ => trivial

theorem placeless_filled (s : String) (length : Double) :
    Outcome.Placeless (filled s length) := by
  rw [filled]
  split
  · exact trivial
  · exact rfl

theorem placeless_padded (width : Nat) (hx : x.Placeless) :
    Outcome.Placeless (x.padded width) :=
  Ends.bind hx fun s _ => placeless_filled s _

theorem placeless_spoken (place : String) (hx : x.Placeless) :
    Outcome.Placeless (x.spoken place) := by
  rw [spoken]
  split
  · exact rfl
  · exact rfl
  · exact hx
  · split
    · exact hx
    · exact rfl

end Operand

/-! ## Texts from parts -/

/-- Whether parts are operands that fail without naming a field. -/
def Parts.Placeless (parts : Parts) : Prop :=
  ∀ name, (parts name).Placeless

theorem Parts.placeless_ofList {known : List (String × Operand)}
    (h : ∀ p ∈ known, p.2.Placeless) : (Parts.ofList known).Placeless := by
  intro name
  rw [Parts.ofList]
  induction known with
  | nil => exact Operand.placeless_missing
  | cons p known ih =>
    obtain ⟨hp, hknown⟩ := List.forall_mem_cons.mp h
    rw [List.lookup_cons]
    cases name == p.1 with
    | true => exact hp
    | false => exact ih hknown

section

variable {parts : Parts} (h : parts.Placeless)

open Operand

include h

theorem Decimal.placeless_textOfParts : Outcome.Placeless (Decimal.textOfParts parts) := by
  rw [textOfParts]
  refine (placeless_atMost (h _) (placeless_ofNat 0)).bind fun whole _ => ?_
  split
  · refine (placeless_negated (h _)).bind fun negated hnegated => ?_
    refine (placeless_integer hnegated).bind fun exponent _ => ?_
    refine (placeless_powerOfTen _).bind fun factor _ => ?_
    exact (placeless_times (h _) (placeless_ofInteger factor)).bind fun product hproduct => hproduct
  · refine (placeless_below (h _) (placeless_ofInteger 0)).bind fun negative _ => ?_
    extract_lets rest
    have hrest : ∀ magnitude, magnitude.Placeless → Outcome.Placeless (rest magnitude) := by
      intro magnitude hmagnitude
      refine (placeless_spoken _ hmagnitude).bind fun digits _ => ?_
      refine (placeless_plus (h _) (placeless_ofNat 1)).bind fun sum hsum => ?_
      refine (placeless_number hsum).bind fun length _ => ?_
      refine (placeless_filled digits length).bind fun digits _ => ?_
      refine (placeless_minus (placeless_ofNat _) (h _)).bind fun difference hdifference => ?_
      exact (placeless_number hdifference).bind fun _ _ => trivial
    split
    · exact (placeless_negated (h _)).bind hrest
    · exact hrest _ (h _)

theorem LocalDate.placeless_textOfParts : Outcome.Placeless (LocalDate.textOfParts parts) := by
  rw [textOfParts]
  refine (placeless_below (h _) (placeless_ofNat 0)).bind fun negative _ => ?_
  extract_lets rest
  have hrest : ∀ yearText, Outcome.Placeless (rest yearText) := fun yearText =>
    (placeless_padded 2 (h _)).bind fun _ _ => (placeless_padded 2 (h _)).bind fun _ _ => trivial
  split
  · refine (placeless_negated (h _)).bind fun year hyear => ?_
    exact (placeless_padded 4 hyear).bind fun _ _ => hrest _
  · exact (placeless_padded 4 (h _)).bind fun yearText _ => hrest yearText

omit h in
theorem LocalTime.placeless_fractionOfPart {nano : Operand} (hnano : nano.Placeless) :
    Outcome.Placeless (LocalTime.fractionOfPart nano) := by
  rw [fractionOfPart]
  refine (placeless_modulo hnano (placeless_ofNat 1000000)).bind fun thousandths _ => ?_
  split
  · refine (placeless_dividedBy hnano (placeless_ofNat 1000000)).bind fun millis hmillis => ?_
    exact placeless_padded 3 hmillis
  · refine (placeless_modulo hnano (placeless_ofNat 1000)).bind fun millionths _ => ?_
    split
    · refine (placeless_dividedBy hnano (placeless_ofNat 1000)).bind fun micros hmicros => ?_
      exact placeless_padded 6 hmicros
    · exact placeless_padded 9 hnano

theorem LocalTime.placeless_textOfParts : Outcome.Placeless (LocalTime.textOfParts parts) := by
  rw [textOfParts]
  refine (placeless_padded 2 (h _)).bind fun hourText _ => ?_
  refine (placeless_padded 2 (h _)).bind fun minuteText _ => ?_
  refine (placeless_above (h _) (placeless_ofNat 0)).bind fun seconds _ => ?_
  extract_lets rest
  have hrest : ∀ shown, Outcome.Placeless (rest shown) := by
    intro shown
    dsimp only [rest]
    split
    · refine (placeless_padded 2 (h _)).bind fun secondText _ => ?_
      refine (placeless_above (h _) (placeless_ofNat 0)).bind fun fractional _ => ?_
      split
      · have hfraction := (placeless_fractionOfPart (h "nano")).map (f := ("." ++ ·))
          (R := fun _ => True) fun _ _ => trivial
        exact hfraction.bind fun _ _ => trivial
      · exact trivial
    · exact trivial
  split
  · exact hrest true
  · exact (placeless_above (h _) (placeless_ofNat 0)).bind fun shown _ => hrest shown

theorem LocalTime.placeless_formatOfParts : Outcome.Placeless (LocalTime.formatOfParts parts) := by
  rw [formatOfParts]
  refine (placeless_padded 2 (h _)).bind fun hourText _ => ?_
  refine (placeless_padded 2 (h _)).bind fun minuteText _ => ?_
  refine (placeless_padded 2 (h _)).bind fun secondText _ => ?_
  dsimp only
  split
  · exact trivial
  · refine (placeless_dividedBy (h _) (placeless_ofNat 1000)).bind fun quotient hquotient => ?_
    refine (placeless_number hquotient).bind fun micros _ => ?_
    exact (placeless_padded 6 (placeless_ofNumber _)).bind fun _ _ => trivial

theorem LocalDateTime.placeless_textOfParts :
    Outcome.Placeless (LocalDateTime.textOfParts parts) :=
  (placeless_spoken _ (h _)).bind fun _ _ => (placeless_spoken _ (h _)).bind fun _ _ => trivial

theorem Value.placeless_errorTextOfParts : Outcome.Placeless (Value.errorTextOfParts parts) := by
  rw [errorTextOfParts]
  refine Ends.bind (Q := fun _ => True) ?_ fun name _ =>
    Ends.bind (Q := fun _ => True) ?_ fun message _ => trivial
  · dsimp only
    split
    · exact trivial
    · exact h "name"
  · dsimp only
    split
    · exact trivial
    · exact h "message"

theorem Value.placeless_listTextOfParts : Outcome.Placeless (Value.listTextOfParts parts) := by
  rw [listTextOfParts]
  refine (placeless_number (h _)).bind fun length _ => ?_
  dsimp only
  split
  · exact rfl
  · split
    · exact rfl
    · refine (Ends.mapM (R := fun _ => True) fun i _ => ?_).bind fun _ _ => trivial
      split
      · exact trivial
      · exact h _

theorem Value.placeless_textOfParts (v : Value) :
    Outcome.Placeless (Value.textOfParts v parts) := by
  have hnoText : v.noText.Placeless := by
    rw [noText]
    split <;> exact rfl
  rw [textOfParts]
  split
  · exact trivial
  · split
    · exact trivial
    · exact placeless_listTextOfParts h
  · split
    · exact trivial
    · exact rfl
  · exact rfl
  · exact Decimal.placeless_textOfParts h
  · exact LocalDate.placeless_textOfParts h
  · exact LocalTime.placeless_textOfParts h
  · exact LocalDateTime.placeless_textOfParts h
  · exact placeless_errorTextOfParts h
  · exact hnoText

end

/-! ## Texts of values -/

theorem Members.mem_of_mem_numbered {α : Type} {i : Nat} {items : List α} {p : String × α}
    (h : p ∈ numbered i items) : p.2 ∈ items := by
  induction items generalizing i with
  | nil => exact absurd h List.not_mem_nil
  | cons a items ih =>
    rcases List.mem_cons.mp h with rfl | h
    · exact List.mem_cons_self
    · exact List.mem_cons_of_mem a (ih h)

theorem Decimal.placeless_text (d : Decimal) : Outcome.Placeless d.text := by
  rw [text]
  split
  · split
    · exact rfl
    · exact (placeless_timesPower d.unscaled _).map fun _ _ => trivial
  · exact rfl
  · exact rfl

namespace Value

theorem placeless_constantParts (k : Archetype) : ∀ p ∈ constantParts k, p.2.Placeless := by
  intro p hp
  obtain ⟨m, _, rfl⟩ := List.mem_map.mp hp
  exact trivial

theorem placeless_archetypeText (k : Archetype) : Outcome.Placeless (archetypeText k) := by
  unfold archetypeText
  split
  iterate 4 exact trivial
  · exact rfl
  · exact placeless_textOfParts (Parts.placeless_ofList (placeless_constantParts k)) _

theorem placeless_plainParts (v : Value) : ∀ p ∈ plainParts v, p.2.Placeless := by
  cases v with
  | archetype k => exact placeless_constantParts k
  | decimal | dateTime | error | failure =>
    exact List.forall_mem_cons.mpr ⟨trivial, List.forall_mem_singleton.mpr trivial⟩
  | date =>
    refine List.forall_mem_cons.mpr ⟨trivial, List.forall_mem_cons.mpr ⟨trivial, ?_⟩⟩
    exact List.forall_mem_singleton.mpr trivial
  | time =>
    refine List.forall_mem_cons.mpr ⟨trivial, List.forall_mem_cons.mpr ⟨trivial, ?_⟩⟩
    exact List.forall_mem_cons.mpr ⟨trivial, List.forall_mem_singleton.mpr trivial⟩
  | _ => exact fun p hp => absurd hp List.not_mem_nil

mutual

/-- The text of a value, whatever there is in it, fails without naming a field. -/
theorem placeless_text (v : Value) : Outcome.Placeless v.text := by
  match v with
  | .decimal d => exact d.placeless_text
  | .list items =>
    rw [text]
    exact (placeless_itemTexts items).map fun _ _ => trivial
  | .record members =>
    rw [text]
    exact placeless_textOfParts (Parts.placeless_ofList fun p hp => absurd hp List.not_mem_nil) _
  | .heir members parent =>
    rw [text]
    refine placeless_textOfParts (Parts.placeless_ofList fun p hp => ?_) _
    rcases List.mem_append.mp hp with hp | hp
    · exact placeless_operands members p hp
    · exact placeless_lentOperands parent p hp
  | .bare members =>
    rw [text, noText]
    split <;> exact rfl
  | .archetype k => exact placeless_archetypeText k
  | .null | .missing | .bool _ | .number _ | .integer _ | .string _ | .bytes _ | .buffer _
  | .instant _ | .date _ | .time _ | .dateTime _ | .map _ | .error .. | .failure .. | .builtin _ =>
    rw [text]
    exact trivial

theorem placeless_itemTexts (items : List Value) : Outcome.Placeless (itemTexts items) := by
  match items with
  | [] => exact trivial
  | item :: rest =>
    rw [itemTexts]
    have hitem := placeless_text item
    have hrest := placeless_itemTexts rest
    split
    · exact hrest.bind fun _ _ => trivial
    · exact hitem.bind fun _ _ => hrest.bind fun _ _ => trivial

theorem placeless_operands (members : List (String × Value)) :
    ∀ p ∈ operands members, p.2.Placeless := by
  match members with
  | [] => exact fun p hp => absurd hp List.not_mem_nil
  | (name, value) :: rest =>
    rw [operands]
    exact List.forall_mem_cons.mpr ⟨placeless_text value, placeless_operands rest⟩

theorem placeless_itemOperands (items : List Value) : ∀ x ∈ itemOperands items, x.Placeless := by
  match items with
  | [] => exact fun p hp => absurd hp List.not_mem_nil
  | item :: rest =>
    rw [itemOperands]
    exact List.forall_mem_cons.mpr ⟨placeless_text item, placeless_itemOperands rest⟩

theorem placeless_lentOperands (v : Value) : ∀ p ∈ lentOperands v, p.2.Placeless := by
  match v with
  | .heir members parent =>
    rw [lentOperands]
    exact List.forall_mem_append.mpr ⟨placeless_operands members, placeless_lentOperands parent⟩
  | .list items =>
    rw [lentOperands]
    refine List.forall_mem_append.mpr ⟨fun p hp => ?_, List.forall_mem_singleton.mpr trivial⟩
    exact placeless_itemOperands items p.2 (Members.mem_of_mem_numbered hp)
  | .null | .missing | .bool _ | .number _ | .integer _ | .string _ | .bytes _ | .buffer _
  | .instant _ | .decimal _ | .date _ | .time _ | .dateTime _ | .map _ | .record _ | .bare _
  | .archetype _ | .error .. | .failure .. | .builtin _ => exact placeless_plainParts _

end

end Value

end WarehouseRows
