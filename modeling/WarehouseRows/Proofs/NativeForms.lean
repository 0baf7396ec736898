import WarehouseRows.Proofs.AvroConformance
import WarehouseRows.Proofs.NativeRecords
import WarehouseRows.Proofs.ReachedPlaces

/-!
# Integers and bytes in either form

A native integer is a number or a big integer, and native bytes come in either of two containers.
The reader takes both forms for the same, wherever in a record they stand: every integer is made a
big one and all bytes are copied before anything else is done with them. So two records that differ
in these forms only give the same row. Failures may tell which kind of value they are about, but are
the same failure of the same field.

The values are related by induction on the type, and so are the outcomes of the reader. What carries
the induction through maps is that the keys that were read are equal, and not only related: both
lists have their repeated keys at the same places.

## Main definitions

* `FieldType.Alike`: native values of a type that differ in these forms only.
* `Outcome.Related`: outcomes that are both values or both failures, and related as such.
* `Failure.SamePlace`: failures with the same code and the same field.

## Main results

* `FieldType.related_readAvro`: what is read of two values that are alike.
* `Row.ofAvro_of_alike`: two records that are alike give the same row, or fail alike.
-/

namespace WarehouseRows

/-! ## Outcomes that are related -/

namespace Outcome

/-- Whether two outcomes are both failures, with one relation between them, or both values, with
another. -/
def Related {ε ε' α β : Type} (R : ε → ε' → Prop) (S : α → β → Prop) :
    Except ε α → Except ε' β → Prop
  | .error e, .error e' => R e e'
  | .ok a, .ok b => S a b
  | _, _ => False

end Outcome

/-- Seen from an enclosing field, failures of one field are of one field again. -/
theorem ConversionError.samePlace_withField {e e' : ConversionError} (hcode : e.code = e'.code)
    (hfield : e.field = e'.field) (name : String) :
    (e.withField name).code = (e'.withField name).code ∧
      (e.withField name).field = (e'.withField name).field := by
  rw [withField, withField, hfield]
  split
  · exact ⟨hcode, rfl⟩
  · exact ⟨hcode, rfl⟩

namespace Failure

/-- Whether two failures have the same code and tell the same field. -/
def SamePlace (f g : Failure) : Prop :=
  f.toConversion.code = g.toConversion.code ∧ f.toConversion.field = g.toConversion.field

theorem SamePlace.refl (f : Failure) : f.SamePlace f :=
  ⟨rfl, rfl⟩

/-- Failures of the same place are still such when they are seen from an enclosing field. -/
theorem SamePlace.inField {f g : Failure} (h : f.SamePlace g) (name : String) :
    (f.inField name).SamePlace (g.inField name) :=
  ConversionError.samePlace_withField h.1 h.2 name

end Failure

open Failure (SamePlace)

namespace Outcome

variable {α β γ δ : Type} {S : α → β → Prop} {T : γ → δ → Prop}

theorem Related.refl (x : Except Failure α) : Related SamePlace Eq x x := by
  cases x with
  | error e => exact SamePlace.refl e
  | ok a => exact Eq.refl a

theorem Related.ok_or_error {x : Except Failure α} {y : Except Failure β}
    (h : Related SamePlace S x y) :
    (∃ a b, x = .ok a ∧ y = .ok b ∧ S a b) ∨
      ∃ e e', x = .error e ∧ y = .error e' ∧ e.SamePlace e' := by
  cases x with
  | error e =>
    cases y with
    | error e' => exact Or.inr ⟨e, e', rfl, rfl, h⟩
    | ok b => exact absurd h id
  | ok a =>
    cases y with
    | error e' => exact absurd h id
    | ok b => exact Or.inl ⟨a, b, rfl, rfl, h⟩

theorem Related.bind {x : Except Failure α} {y : Except Failure β} {f : α → Except Failure γ}
    {g : β → Except Failure δ} (hxy : Related SamePlace S x y)
    (hfg : ∀ a b, S a b → Related SamePlace T (f a) (g b)) :
    Related SamePlace T (x >>= f) (y >>= g) := by
  rcases hxy.ok_or_error with ⟨a, b, rfl, rfl, hab⟩ | ⟨e, e', rfl, rfl, he⟩
  · exact hfg a b hab
  · exact he

/-- What is done with equal values is enough to look at for one of them. -/
theorem Related.bind_eq {x y : Except Failure α} {f g : α → Except Failure β}
    (hxy : Related SamePlace Eq x y) (hfg : ∀ a, Related SamePlace Eq (f a) (g a)) :
    Related SamePlace Eq (x >>= f) (y >>= g) :=
  hxy.bind fun a _ hab => hab ▸ hfg a

theorem Related.inField {x y : Except Failure α} (h : Related SamePlace Eq x y) (name : String) :
    Related SamePlace Eq (x.mapError (Failure.inField name))
      (y.mapError (Failure.inField name)) := by
  rcases h.ok_or_error with ⟨a, b, rfl, rfl, hab⟩ | ⟨e, e', rfl, rfl, he⟩
  · exact hab
  · exact SamePlace.inField he name

theorem Related.mapM {f : α → Except Failure γ} {g : β → Except Failure γ} {xs : List α}
    {ys : List β} (h : List.Forall₂ (fun x y => Related SamePlace Eq (f x) (g y)) xs ys) :
    Related SamePlace Eq (xs.mapM f) (ys.mapM g) := by
  induction h with
  | nil => exact .refl _
  | cons hxy _ ih =>
    rw [List.mapM_cons, List.mapM_cons]
    exact hxy.bind_eq fun z => ih.bind_eq fun zs => .refl _

end Outcome

open Outcome (Related)

/-! ## Native values that are alike -/

namespace Avro

/-- Whether two values are the same native integer. -/
def SameLong (v w : Value) : Prop :=
  ∃ n, IsLong v n ∧ IsLong w n

/-- Whether two values are containers of the same bytes. -/
def SameBytes (v w : Value) : Prop :=
  ∃ content, (v = .bytes content ∨ v = .buffer content) ∧ (w = .bytes content ∨ w = .buffer content)

/-- Whether two entries of a map differ in their keys and values only, the first two values of a
record, and these are related. -/
inductive EntriesAlike (K V : Value → Value → Prop) : Value → Value → Prop
  | same (item : Value) : EntriesAlike K V item item
  | key (frame : Frame) (name : String) {a b : Value} (hkey : K a b) :
      EntriesAlike K V (frame.fill [(name, a)]) (frame.fill [(name, b)])
  | both (frame : Frame) (keyName valueName : String) (rest : List (String × Value))
      {a b c d : Value} (hkey : K a b) (hvalue : V c d) :
      EntriesAlike K V (frame.fill ((keyName, a) :: (valueName, c) :: rest))
        (frame.fill ((keyName, b) :: (valueName, d) :: rest))

end Avro

/-- Whether two values are the same integer, at the kinds of integers and of instants, or the same
bytes, at the kinds that are stored as bytes. -/
def PrimitiveKind.SameForms (kind : PrimitiveKind) (v w : Value) : Prop :=
  match kind with
  | .byte | .int16 | .int32 | .int64 | .datetime => Avro.SameLong v w
  | .bytes | .decimal => Avro.SameBytes v w
  | .float32 | .float64 | .boolean | .string => False

namespace FieldType

mutual

/-- Whether two native values at a place of a type differ in the forms of integers and bytes only.
Values under the name of a field are alike at the type of the field, and at the types of all fields
if there are several of the name. -/
def Alike (type : FieldType) (v w : Value) : Prop :=
  v = w ∨
    match type with
    | .primitive kind => kind.SameForms v w
    | .array element _ =>
      ∃ items others, v = .list items ∧ w = .list others ∧ List.Forall₂ (Alike element) items others
    | .map key value _ =>
      ∃ items others, v = .list items ∧ w = .list others ∧
        List.Forall₂ (Avro.EntriesAlike (Alike key) (Alike value)) items others
    | .row fields =>
      ∃ (frame : Avro.Frame) (members others : List (String × Value)),
        v = frame.fill members ∧ w = frame.fill others ∧
          Avro.MembersAgree
            (fun name a b => a = b ∨ ((∃ f ∈ fields, f.name = name) ∧ AllAlike fields name a b))
            members others
    | .logical _ base representation _ =>
      match representation with
      | .passThrough => Alike base v w
      | .time | .timeWithLocalTz => Avro.SameLong v w
      | .date | .datetime | .enumeration | .custom | .unknown _ => False
    | .unknown _ => False

/-- Whether two values are alike at the type of each field of a name. -/
def AllAlike (fields : List Field) (name : String) (v w : Value) : Prop :=
  match fields with
  | [] => True
  | f :: rest => (f.name = name → Alike f.type v w) ∧ AllAlike rest name v w

end

theorem alike_refl (type : FieldType) (v : Value) : type.Alike v v := by
  rw [Alike.eq_def]
  exact Or.inl rfl

theorem allAlike_iff {fields : List Field} {name : String} {v w : Value} :
    AllAlike fields name v w ↔ ∀ f ∈ fields, f.name = name → f.type.Alike v w := by
  induction fields with
  | nil => simp [AllAlike]
  | cons f fields ih => simp [AllAlike, ih]

/-- Records of one field are alike if their values are. -/
theorem alike_record {name : String} {type : FieldType} {nullable : Bool}
    {description : Option String} {v w : Value} (h : type.Alike v w) :
    (FieldType.row [⟨name, type, nullable, description⟩]).Alike (.record [(name, v)])
      (.record [(name, w)]) := by
  have hall : AllAlike [⟨name, type, nullable, description⟩] name v w :=
    allAlike_iff.mpr fun f hf _ => by
      obtain rfl := List.mem_singleton.mp hf
      exact h
  rw [Alike]
  exact Or.inr ⟨.plain, _, _, rfl, rfl,
    .cons ⟨rfl, Or.inr ⟨⟨_, List.mem_singleton_self _, rfl⟩, hall⟩⟩ .nil⟩

end FieldType

/-! ### Values in one form or the other -/

namespace Avro

/-- Whether a value is there and no text, as all values are that come in either form. -/
def IsSolid (v : Value) : Prop :=
  v.isAbsent = false ∧ ∀ s, v ≠ .string s

theorem isSolid_of_isLong {v : Value} {n : Int} (h : IsLong v n) : IsSolid v := by
  refine ⟨isAbsent_of_isLong h, fun s hs => ?_⟩
  rcases h with rfl | ⟨x, rfl, _⟩
  · cases hs
  · cases hs

theorem SameLong.isSolid {v w : Value} (h : SameLong v w) : IsSolid v ∧ IsSolid w := by
  obtain ⟨n, hv, hw⟩ := h
  exact ⟨isSolid_of_isLong hv, isSolid_of_isLong hw⟩

theorem SameBytes.isSolid {v w : Value} (h : SameBytes v w) : IsSolid v ∧ IsSolid w := by
  obtain ⟨content, rfl | rfl, rfl | rfl⟩ := h <;> exact ⟨⟨rfl, nofun⟩, ⟨rfl, nofun⟩⟩

theorem isSolid_fill (frame : Frame) (members : List (String × Value)) :
    IsSolid (frame.fill members) := by
  cases frame <;> exact ⟨rfl, nofun⟩

end Avro

open Avro (IsSolid)

/-- Values that are alike are the same, or both are there and no texts. -/
theorem FieldType.Alike.eq_or_isSolid {type : FieldType} {v w : Value} (h : type.Alike v w) :
    v = w ∨ (IsSolid v ∧ IsSolid w) := by
  induction type with
  | primitive kind =>
    rw [Alike] at h
    rcases h with rfl | h
    · exact Or.inl rfl
    · cases kind with
      | byte | int16 | int32 | int64 | datetime => exact Or.inr (Avro.SameLong.isSolid h)
      | bytes | decimal => exact Or.inr (Avro.SameBytes.isSolid h)
      | float32 | float64 | boolean | string => exact absurd h id
  | array element elementNullable _ =>
    rw [Alike] at h
    rcases h with rfl | ⟨items, others, rfl, rfl, _⟩
    · exact Or.inl rfl
    · exact Or.inr ⟨⟨rfl, nofun⟩, ⟨rfl, nofun⟩⟩
  | map key value valueNullable _ _ =>
    rw [Alike] at h
    rcases h with rfl | ⟨items, others, rfl, rfl, _⟩
    · exact Or.inl rfl
    · exact Or.inr ⟨⟨rfl, nofun⟩, ⟨rfl, nofun⟩⟩
  | row fields _ =>
    rw [Alike] at h
    rcases h with rfl | ⟨frame, members, others, rfl, rfl, _⟩
    · exact Or.inl rfl
    · exact Or.inr ⟨Avro.isSolid_fill frame members, Avro.isSolid_fill frame others⟩
  | logical identifier base representation labels ih =>
    rw [Alike.eq_def] at h
    rcases h with rfl | h
    · exact Or.inl rfl
    · cases representation with
      | passThrough => exact ih h
      | time | timeWithLocalTz => exact Or.inr (Avro.SameLong.isSolid h)
      | date | datetime | enumeration | custom | unknown => exact absurd h id
  | unknown kind =>
    rw [Alike] at h
    exact h.imp_right fun h => absurd h id

/-! ## Leaves -/

namespace Avro

variable {v w : Value}

theorem SameLong.toLong_eq (h : SameLong v w) (type : FieldType) :
    toLong type v = toLong type w := by
  obtain ⟨n, hv, hw⟩ := h
  rw [toLong_of_isLong type hv, toLong_of_isLong type hw]

theorem SameBytes.toBytes_eq (h : SameBytes v w) (type : FieldType) :
    toBytes type v = toBytes type w := by
  obtain ⟨content, rfl | rfl, rfl | rfl⟩ := h <;> rfl

/-- A count of microseconds is read alike in either form, and refused alike if it is too fine. -/
theorem related_readInstant (h : SameLong v w) (type : FieldType) (options : ConversionOptions) :
    Related SamePlace Eq (readInstant type options v) (readInstant type options w) := by
  rw [readInstant, readInstant, h.toLong_eq]
  refine (Related.refl _).bind_eq fun micros => ?_
  split
  · exact .refl _
  · split
    · exact .refl _
    · exact ⟨rfl, rfl⟩
  · exact .refl _

theorem readTime_eq (h : SameLong v w) (type : FieldType) : readTime type v = readTime type w := by
  rw [readTime, readTime, h.toLong_eq]

theorem related_readPrimitive {kind : PrimitiveKind} (h : kind.SameForms v w)
    (options : ConversionOptions) :
    Related SamePlace Eq (readPrimitive kind options v) (readPrimitive kind options w) := by
  cases kind with
  | byte | int16 | int32 =>
    simp only [readPrimitive, readBounded, SameLong.toLong_eq h]
    exact .refl _
  | int64 =>
    simp only [readPrimitive, SameLong.toLong_eq h]
    exact .refl _
  | datetime => exact related_readInstant h _ options
  | bytes | decimal =>
    simp only [readPrimitive, SameBytes.toBytes_eq h]
    exact .refl _
  | float32 | float64 | boolean | string => exact absurd h id

end Avro

/-! ## Entries -/

namespace Avro

variable {K V : Value → Value → Prop} (hK : ∀ v, K v v) (hV : ∀ v, V v v)

include hK hV in
/-- Entries that are alike are split into related keys and related values, or are no entries. -/
theorem related_splitEntry {item other : Value} (h : EntriesAlike K V item other)
    (type : FieldType) :
    Related SamePlace (fun e e' => K e.1 e'.1 ∧ V e.2 e'.2) (splitEntry type item)
      (splitEntry type other) := by
  cases h with
  | same =>
    cases splitEntry type item with
    | error e => exact SamePlace.refl e
    | ok e => exact ⟨hK e.1, hV e.2⟩
  | @key frame name a b hkey =>
    rw [splitEntry, splitEntry, frame.isRecord_fill [(name, a)] [(name, b)]]
    simp only [Value.ownValues, Frame.ownMembers_fill, List.map_cons, List.map_nil]
    cases isRecord (frame.fill [(name, b)]) with
    | true => exact ⟨hkey, hV .missing⟩
    | false => exact ⟨rfl, rfl⟩
  | @both frame keyName valueName rest a b c d hkey hvalue =>
    rw [splitEntry, splitEntry, frame.isRecord_fill ((keyName, a) :: (valueName, c) :: rest)
      ((keyName, b) :: (valueName, d) :: rest)]
    simp only [Value.ownValues, Frame.ownMembers_fill, List.map_cons]
    cases isRecord (frame.fill ((keyName, b) :: (valueName, d) :: rest)) with
    | true => exact ⟨hkey, hvalue⟩
    | false => exact ⟨rfl, rfl⟩

end Avro

namespace Value

variable {P K V : Value → Value → Prop} {split : Value → Except Failure (Value × Value)}
  {readKey readValue : Value → Except Failure Value} {duplicate : Value → Failure}

/-- Lists of related items give the same entries: the keys that are read of related items are equal,
so both lists find a key in the entries before it, or neither does. -/
theorem related_readEntries
    (hsplit : ∀ a b, P a b →
      Related SamePlace (fun e e' => K e.1 e'.1 ∧ V e.2 e'.2) (split a) (split b))
    (hkey : ∀ a b, K a b → Related SamePlace Eq (readKey a) (readKey b))
    (hvalue : ∀ a b, V a b → Related SamePlace Eq (readValue a) (readValue b))
    {items others : List Value} (h : List.Forall₂ P items others)
    (entries : List (Value × Value)) :
    Related SamePlace Eq (readEntries split readKey readValue duplicate entries items)
      (readEntries split readKey readValue duplicate entries others) := by
  induction h generalizing entries with
  | nil => exact .refl _
  | cons hitem _ ih =>
    rw [readEntries, readEntries]
    refine (hsplit _ _ hitem).bind fun e e' he => ?_
    refine (hkey _ _ he.1).bind_eq fun key => ?_
    cases hasKey entries key with
    | true => exact SamePlace.refl _
    | false => exact (hvalue _ _ he.2).bind_eq fun value => ih (storeEntry entries key value)

end Value

/-! ## Rows and composites -/

namespace FieldType

/-- Fields are read alike if each of them is. -/
theorem related_readAvroFields_of_forall {options : ConversionOptions} {fields : List Field}
    {record other : Value}
    (h : ∀ f ∈ fields, Related SamePlace Eq
      ((record.fieldOf f.name).bind (readAvro options f.type f.nullable))
      ((other.fieldOf f.name).bind (readAvro options f.type f.nullable))) :
    Related SamePlace Eq (readAvroFields options fields record)
      (readAvroFields options fields other) := by
  induction fields with
  | nil => exact .refl _
  | cons f fields ih =>
    obtain ⟨hfirst, hrest⟩ := List.forall_mem_cons.mp h
    rw [readAvroFields, readAvroFields]
    exact (hfirst.inField f.name).bind_eq fun first => (ih hrest).bind_eq fun others => .refl _

/-- The fields of records that are alike are read alike, if all values that are alike at the type of
a field are. -/
theorem related_readAvroFields (options : ConversionOptions) {fields : List Field}
    (hfields : ∀ f ∈ fields, ∀ nullable v w, f.type.Alike v w → Related SamePlace Eq
      (readAvro options f.type nullable v) (readAvro options f.type nullable w))
    {record other : Value} (h : (FieldType.row fields).Alike record other) :
    Related SamePlace Eq (readAvroFields options fields record)
      (readAvroFields options fields other) := by
  rw [Alike] at h
  rcases h with rfl | ⟨frame, members, others, rfl, rfl, hmembers⟩
  · exact .refl _
  · refine related_readAvroFields_of_forall fun f hf => ?_
    -- What an archetype answers for a record may hang on a member that is a text.
    have hsolid : ∀ name a b,
        (a = b ∨ ((∃ f ∈ fields, f.name = name) ∧ AllAlike fields name a b)) →
          a = b ∨ ∀ s, a ≠ .string s ∧ b ≠ .string s := by
      rintro name a b (hab | ⟨⟨g, hg, hname⟩, hall⟩)
      · exact Or.inl hab
      · refine (allAlike_iff.mp hall g hg hname).eq_or_isSolid.imp_right ?_
        exact fun ⟨ha, hb⟩ s => ⟨ha.2 s, hb.2 s⟩
    rcases Avro.fieldOf_of_membersAgree hsolid frame hmembers f.name with
      hsame | ⟨a, b, ha, hb, hab⟩
    · rw [hsame]
      exact .refl _
    · rw [ha, hb]
      rcases hab with rfl | ⟨-, hall⟩
      · exact .refl _
      · exact hfields f hf f.nullable a b (allAlike_iff.mp hall f hf rfl)

/-- Values that are alike at a type are read alike at a place of it. -/
theorem related_readAvro (options : ConversionOptions) (type : FieldType) (nullable : Bool)
    (v w : Value) (h : type.Alike v w) :
    Related SamePlace Eq (readAvro options type nullable v) (readAvro options type nullable w) := by
  induction type generalizing nullable v w with
  | primitive kind =>
    rcases h.eq_or_isSolid with rfl | ⟨⟨hv, -⟩, ⟨hw, -⟩⟩
    · exact .refl _
    rw [readAvro, readAvro, if_neg (by simp [hv]), if_neg (by simp [hw])]
    rw [Alike] at h
    rcases h with rfl | h
    · exact .refl _
    · exact Avro.related_readPrimitive h options
  | array element elementNullable ih =>
    rw [Alike] at h
    rcases h with rfl | ⟨items, others, rfl, rfl, hitems⟩
    · exact .refl _
    rw [readAvro, readAvro]
    have hread := hitems.imp fun a b hab => ih elementNullable a b hab
    exact (Related.mapM hread).bind_eq fun items => .refl _
  | map key value valueNullable ihkey ihvalue =>
    rw [Alike] at h
    rcases h with rfl | ⟨items, others, rfl, rfl, hitems⟩
    · exact .refl _
    rw [readAvro, readAvro]
    have hsplit := fun a b (hab : Avro.EntriesAlike key.Alike value.Alike a b) =>
      Avro.related_splitEntry key.alike_refl value.alike_refl hab
        (.map key value valueNullable)
    exact (Value.related_readEntries hsplit (ihkey false) (ihvalue valueNullable) hitems []).bind_eq
      fun entries => .refl _
  | row fields ih =>
    have hrows := related_readAvroFields options ih h
    rw [Alike] at h
    rcases h with rfl | ⟨frame, members, others, rfl, rfl, -⟩
    · exact .refl _
    have hv : ¬ (frame.fill members).isAbsent = true := by simp
    have hw : ¬ (frame.fill others).isAbsent = true := by simp
    rw [readAvro, readAvro, if_neg hv, if_neg hw, frame.isRecord_fill members others]
    cases Avro.isRecord (frame.fill others) with
    | true => exact hrows.bind_eq fun row => .refl _
    | false => exact ⟨rfl, rfl⟩
  | logical identifier base representation labels ih =>
    rcases h.eq_or_isSolid with rfl | ⟨⟨hv, -⟩, ⟨hw, -⟩⟩
    · exact .refl _
    rw [readAvro, readAvro, if_neg (by simp [hv]), if_neg (by simp [hw])]
    rw [Alike.eq_def] at h
    rcases h with rfl | h
    · exact .refl _
    · cases representation with
      | passThrough => exact ih nullable v w h
      | time =>
        simp only [Avro.readTime_eq h]
        exact .refl _
      | timeWithLocalTz => exact Avro.related_readInstant h _ options
      | date | datetime | enumeration | custom | unknown => exact absurd h id
  | unknown kind =>
    rw [Alike] at h
    rcases h with rfl | h
    · exact .refl _
    · exact absurd h id

end FieldType

/-! ## Rows of records -/

namespace Row

/-- A record is refused with a conversion error. -/
theorem exists_conversion_of_ofAvro {options : ConversionOptions} {schema : Schema} {record : Value}
    {f : Failure} (h : ofAvro options schema record = .error f) : ∃ e, f = .conversion e := by
  rw [ofAvro, ← Converter.convertFields_native] at h
  obtain ⟨name, -, g, -, -, rfl⟩ := Converter.convertFields_eq_error.mp h
  exact ⟨g.toConversion.withField name, rfl⟩

/-- The forms of integers and bytes do not matter: two records that differ in them only give the
same row, or are refused with the same code and the same field. -/
theorem ofAvro_of_alike (options : ConversionOptions) (schema : Schema) {record other : Value}
    (h : (FieldType.row schema).Alike record other) :
    (∃ row, ofAvro options schema record = .ok row ∧ ofAvro options schema other = .ok row) ∨
      ∃ e e', ofAvro options schema record = .error (.conversion e) ∧
        ofAvro options schema other = .error (.conversion e') ∧
        e.code = e'.code ∧ e.field = e'.field := by
  have hboth : Related SamePlace Eq (ofAvro options schema record) (ofAvro options schema other) :=
    FieldType.related_readAvroFields options
      (fun f _ nullable v w => FieldType.related_readAvro options f.type nullable v w) h
  rcases hboth.ok_or_error with ⟨row, _, hrecord, hother, rfl⟩ | ⟨f, f', hrecord, hother, hplace⟩
  · exact Or.inl ⟨row, hrecord, hother⟩
  · obtain ⟨e, rfl⟩ := exists_conversion_of_ofAvro hrecord
    obtain ⟨e', rfl⟩ := exists_conversion_of_ofAvro hother
    exact Or.inr ⟨e, e', hrecord, hother, hplace⟩

/-- A map with two keys and with bytes in a row: the keys, integers under another name, are big
integers in one record and numbers in the other, and the bytes stand in either container. -/
theorem ofAvro_of_alike_keys :
    let schema : Schema := [⟨"m", .map (.passThrough "id" (.primitive .int64))
      (.row [⟨"raw", .primitive .bytes, true, none⟩]) false, false, none⟩]
    let record : Value := .record [("m", .list [
      .record [("key", .integer 1), ("value", .record [("raw", .buffer [7])])],
      .record [("key", .integer 2), ("value", .bare [])]])]
    let other : Value := .record [("m", .list [
      .record [("key", .number (Double.ofInt 1)), ("value", .record [("raw", .bytes [7])])],
      .record [("key", .number (Double.ofInt 2)), ("value", .bare [])]])]
    let row : Row := [.map [(.integer 1, .list [.bytes [7]]), (.integer 2, .list [.null])]]
    (FieldType.row schema).Alike record other ∧
      ofAvro {} schema record = .ok row ∧ ofAvro {} schema other = .ok row := by
  intro schema record other row
  have hkey {n : Int} {x : Double} (hx : x.whole? = some n) :
      (FieldType.passThrough "id" (.primitive .int64)).Alike (.integer n) (.number x) := by
    rw [FieldType.passThrough, FieldType.Alike, FieldType.Alike]
    exact Or.inr (Or.inr ⟨n, Or.inl rfl, Or.inr ⟨x, rfl, hx⟩⟩)
  have hraw : (FieldType.primitive .bytes).Alike (.buffer [7]) (.bytes [7]) := by
    rw [FieldType.Alike]
    exact Or.inr ⟨[7], Or.inr rfl, Or.inl rfl⟩
  have hmap : (FieldType.map (.passThrough "id" (.primitive .int64))
      (.row [⟨"raw", .primitive .bytes, true, none⟩]) false).Alike
      (.list [.record [("key", .integer 1), ("value", .record [("raw", .buffer [7])])],
        .record [("key", .integer 2), ("value", .bare [])]])
      (.list [.record [("key", .number (Double.ofInt 1)), ("value", .record [("raw", .bytes [7])])],
        .record [("key", .number (Double.ofInt 2)), ("value", .bare [])]]) := by
    rw [FieldType.Alike]
    exact Or.inr ⟨_, _, rfl, rfl,
      .cons (.both .plain "key" "value" [] (hkey (by decide)) (FieldType.alike_record hraw))
        (.cons (.both .plain "key" "value" [] (hkey (by decide)) (FieldType.alike_refl _ _)) .nil)⟩
  have halike : (FieldType.row schema).Alike record other := FieldType.alike_record hmap
  have hrow : ofAvro {} schema record = .ok row := rfl
  rcases ofAvro_of_alike {} schema halike with ⟨row', hsame, hother⟩ | ⟨e, _, hfailed, -⟩
  · obtain rfl := Except.ok.inj (hrow.symm.trans hsame)
    exact ⟨halike, hrow, hother⟩
  · exact absurd (hrow.symm.trans hfailed) (by simp)

end Row

end WarehouseRows
