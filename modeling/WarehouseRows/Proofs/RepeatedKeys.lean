import WarehouseRows.Proofs.DecimalText
import WarehouseRows.Proofs.ReaderSoundness

/-!
# Keys that occur twice

A map holds a key once, and both readers refuse an entry whose key is there already. What
counts as the same key depends on the sort of the key: numbers, big integers, texts and truth
values are compared as values, and every other key is an object, which is no key but itself.
The readers make a new object for every entry. A repeated number, text or truth value is
therefore always refused, and a repeated decimal, date, time, instant or run of bytes never is:
the map then holds two entries with equal keys.

## Main definitions

* `FieldType.isKeyedByValue`: the types whose values are compared as values.
* `MapReader`: the two readers.
* `Value.Equals`: equal values.
-/

namespace WarehouseRows

/-! ## The same key -/

namespace Value

/-- Whether two values are equal; the sign of a zero does not count. -/
def Equals (a b : Value) : Prop :=
  a = b ∨ ∃ x y, a = .number x ∧ b = .number y ∧ x.equal y = true

/-- Whether a value is compared as a value when it is a key. -/
def isComparable : Value → Bool
  | .bool _ | .number _ | .integer _ | .string _ => true
  | _ => false

theorem equal_comm (x y : Double) : x.equal y = y.equal x := by
  cases x <;> cases y <;> simp [Double.equal, Bool.and_comm, Bool.beq_comm]

theorem sameKey_comm (a b : Value) : a.sameKey b = b.sameKey a := by
  cases a with
  | bool x =>
    cases b with
    | bool y => exact Bool.beq_comm
    | _ => rfl
  | number x =>
    cases b with
    | number y => simp only [sameKey, equal_comm x y, Bool.and_comm]
    | _ => rfl
  | integer x =>
    cases b with
    | integer y => exact Bool.beq_comm
    | _ => rfl
  | string x =>
    cases b with
    | string y => exact Bool.beq_comm
    | _ => rfl
  | _ => cases b <;> rfl

theorem sameKey_of_equals {a b : Value} (h : a.Equals b) (hb : b.isComparable = true) :
    a.sameKey b = true := by
  rcases h with rfl | ⟨x, y, rfl, rfl, hxy⟩
  · cases a with
    | number x =>
      cases x <;> simp [sameKey, Double.isNaN, Double.equal]
    | bool | integer | string => simp [sameKey]
    | _ => exact absurd hb (by simp [isComparable])
  · simp [sameKey, hxy]

/-- An object is no key that is stored anywhere. -/
theorem sameKey_object {v : Value} (hpresent : v.isAbsent = false)
    (hv : v.isComparable = false) (a : Value) : a.sameKey v = false := by
  rw [sameKey_comm]
  cases v with
  | null | missing => exact absurd hpresent (by simp [isAbsent])
  | bool | number | integer | string => exact absurd hv (by simp [isComparable])
  | _ => rfl

theorem asKey_of_not_isComparable {v : Value} (h : v.isComparable = false) : v.asKey = v := by
  cases v with
  | number => exact absurd h (by simp [isComparable])
  | _ => rfl

theorem exists_text_of_isComparable {v : Value} (h : v.isComparable = true) :
    ∃ text, v.text = .ok text := by
  cases v with
  | bool | number | integer | string => exact ⟨_, rfl⟩
  | _ => exact absurd h (by simp [isComparable])

/-! ## Entries that are read -/

variable {split : Value → Except Failure (Value × Value)}
  {readKey readValue : Value → Except Failure Value} {duplicate : Value → Failure}

/-- Entries are read one after another, each beside those before it. -/
theorem readEntries_append (entries : List (Value × Value)) (items rest : List Value) :
    readEntries split readKey readValue duplicate entries (items ++ rest) =
      (readEntries split readKey readValue duplicate entries items).bind fun read =>
        readEntries split readKey readValue duplicate read rest := by
  induction items generalizing entries with
  | nil => rfl
  | cons item items ih =>
    rw [List.cons_append, readEntries, readEntries]
    cases split item with
    | error e => rfl
    | ok raw =>
      obtain ⟨rawKey, rawValue⟩ := raw
      simp only [Outcome.ok_bind]
      cases readKey rawKey with
      | error e => rfl
      | ok key =>
        simp only [Outcome.ok_bind]
        split
        · rfl
        · cases readValue rawValue with
          | error e => rfl
          | ok value => exact ih (storeEntry entries key value)

/-- Every entry that was read is there, under its key. -/
theorem mem_of_readEntries {items : List Value} {entries read : List (Value × Value)}
    (h : readEntries split readKey readValue duplicate entries items = .ok read) :
    (∀ e ∈ entries, e ∈ read) ∧
      ∀ item ∈ items, ∀ rawKey rawValue key, split item = .ok (rawKey, rawValue) →
        readKey rawKey = .ok key → ∃ value, (key.asKey, value) ∈ read := by
  induction items generalizing entries with
  | nil =>
    obtain rfl := Except.ok.inj h
    exact ⟨fun _ he => he, fun _ hitem => absurd hitem List.not_mem_nil⟩
  | cons first items ih =>
    obtain ⟨firstRawKey, firstRawValue, firstKey, firstValue, hsplit, hkey, _, _, h⟩ :=
      readEntries_cons_eq_ok h
    obtain ⟨hold, hitems⟩ := ih h
    refine ⟨fun e he => hold e (List.mem_append_left _ he), ?_⟩
    intro item hitem rawKey rawValue key hsplit' hkey'
    rcases List.mem_cons.mp hitem with rfl | hitem
    · obtain ⟨rfl, rfl⟩ := Prod.mk.inj (Except.ok.inj (hsplit.symm.trans hsplit'))
      obtain rfl := Except.ok.inj (hkey.symm.trans hkey')
      exact ⟨firstValue, hold _ (List.mem_append_right _ List.mem_cons_self)⟩
    · exact hitems item hitem rawKey rawValue key hsplit' hkey'

end Value

/-! ## Types of keys -/

/-- Whether the values of a type are compared as values when they are keys: integers, numbers,
texts, truth values and labels are. -/
def FieldType.isKeyedByValue : FieldType → Bool
  | .primitive kind =>
    match kind with
    | .decimal | .bytes | .datetime => false
    | .byte | .int16 | .int32 | .int64 | .float32 | .float64 | .boolean | .string => true
  | .logical _ base representation _ =>
    match representation with
    | .enumeration => true
    | .passThrough => isKeyedByValue base
    | .date | .time | .datetime | .timeWithLocalTz | .custom | .unknown _ => false
  | .array .. | .map .. | .row _ | .unknown _ => false

theorem PrimitiveKind.isComparable_of_isScalar {kind : PrimitiveKind} {value : Value}
    (h : kind.IsScalar value) :
    value.isAbsent = false ∧
      value.isComparable = (FieldType.primitive kind).isKeyedByValue := by
  cases kind with
  | byte | int16 | int32 =>
    obtain ⟨x, n, rfl, _⟩ := h
    exact ⟨rfl, rfl⟩
  | int64 =>
    obtain ⟨n, rfl, _⟩ := h
    exact ⟨rfl, rfl⟩
  | float32 | float64 | decimal | boolean | string | bytes | datetime =>
    obtain ⟨x, rfl⟩ := h
    exact ⟨rfl, rfl⟩

/-- A type tells of all its values at once how they are compared. -/
theorem FieldType.isComparable_of_inhabits {type : FieldType} {value : Value}
    (h : type.Inhabits IsScalar value) :
    value.isAbsent = false ∧ value.isComparable = type.isKeyedByValue := by
  induction type with
  | primitive kind => exact PrimitiveKind.isComparable_of_isScalar h
  | array element elementNullable _ =>
    obtain ⟨items, rfl, _⟩ := h
    exact ⟨rfl, rfl⟩
  | map key valueType valueNullable _ _ =>
    obtain ⟨entries, rfl, _⟩ := h
    exact ⟨rfl, rfl⟩
  | row fields _ =>
    obtain ⟨items, rfl, _⟩ := h
    exact ⟨rfl, rfl⟩
  | logical identifier base representation labels ih =>
    rw [Inhabits] at h
    split at h
    · rename_i hpass
      subst hpass
      exact ih h
    · cases representation with
      | date | timeWithLocalTz =>
        obtain ⟨x, rfl⟩ := h
        exact ⟨rfl, rfl⟩
      | time | datetime | enumeration =>
        obtain ⟨x, rfl, _⟩ := h
        exact ⟨rfl, rfl⟩
      | passThrough | custom | unknown => exact absurd h id
  | unknown kind => exact absurd h id

/-! ## The two readers -/

/-- A reader of raw values. -/
inductive MapReader where
  /-- The reader of native values of records. -/
  | native (options : ConversionOptions)
  /-- The reader of the cells of table rows. -/
  | cells

namespace MapReader

/-- The canonical value that a reader gives at a place. -/
def read (reader : MapReader) (type : FieldType) (nullable : Bool) (value : Value) :
    Except Failure Value :=
  match reader with
  | native options => type.readAvro options nullable value
  | cells => type.parse nullable value

/-- The raw key and the raw value that a reader finds in an entry of a map. -/
def split (reader : MapReader) (type : FieldType) (item : Value) :
    Except Failure (Value × Value) :=
  match reader with
  | native _ => Avro.splitEntry type item
  | cells => Cell.splitEntry type item

/-- What a reader gives without `null` is a value of the type. -/
theorem inhabits_of_read {reader : MapReader} {type : FieldType} {raw value : Value}
    (h : reader.read type false raw = .ok value) :
    type.Inhabits FieldType.IsScalar value := by
  cases reader with
  | native options => exact FieldType.inhabits_of_admits (FieldType.admits_of_readAvro h)
  | cells => exact FieldType.inhabits_of_admits (FieldType.admits_of_parse h)

/-- Both readers read the entries of a map one after another. -/
theorem read_map (reader : MapReader) (keyType valueType : FieldType)
    (valueNullable nullable : Bool) (items : List Value) :
    reader.read (.map keyType valueType valueNullable) nullable (.list items) =
      (Value.readEntries (reader.split (.map keyType valueType valueNullable))
        (reader.read keyType false) (reader.read valueType valueNullable)
        (Value.duplicateKey (.map keyType valueType valueNullable)) [] items).map .map := by
  cases reader with
  | native options =>
    rw [read, FieldType.readAvro, if_neg (by simp [Value.isAbsent])]
    rfl
  | cells =>
    rw [read, FieldType.parse, if_neg (by simp [Value.isAbsent])]
    rfl

/-- An entry whose key equals one that was read before it: where keys are compared as values,
the whole map is refused for it, and nothing behind it matters; where they are not, the entry
joins the others as if its key were new. -/
theorem read_repeatedKey (reader : MapReader) {keyType valueType : FieldType}
    {valueNullable nullable : Bool} {before : List Value} {entries : List (Value × Value)}
    {first second rawKey rawValue rawKey' rawValue' key key' : Value}
    (hbefore : reader.read (.map keyType valueType valueNullable) nullable (.list before) =
      .ok (.map entries))
    (hfirst : first ∈ before)
    (hsplit : reader.split (.map keyType valueType valueNullable) first = .ok (rawKey, rawValue))
    (hkey : reader.read keyType false rawKey = .ok key)
    (hsplit' : reader.split (.map keyType valueType valueNullable) second =
      .ok (rawKey', rawValue'))
    (hkey' : reader.read keyType false rawKey' = .ok key') (hequals : key.Equals key') :
    if keyType.isKeyedByValue then
      ∃ text, key'.text = .ok text ∧ ∀ rest,
        reader.read (.map keyType valueType valueNullable) nullable
          (.list (before ++ second :: rest)) =
            .error (.conversion
              { code := .invalidValue
                message := s!"Duplicate map key \"{text}\""
                fieldType := some (FieldType.map keyType valueType valueNullable).describe
                valueType := some key'.kindName })
    else
      ∀ value, reader.read valueType valueNullable rawValue' = .ok value →
        reader.read (.map keyType valueType valueNullable) nullable
          (.list (before ++ [second])) = .ok (.map (entries ++ [(key', value)])) := by
  rw [read_map] at hbefore
  obtain ⟨read, hread, hentries⟩ := Outcome.map_eq_ok.mp hbefore
  obtain rfl := Value.map.inj hentries
  obtain ⟨hpresent, hcomparable⟩ := FieldType.isComparable_of_inhabits (inhabits_of_read hkey')
  split
  · rename_i hvalue
    rw [hvalue] at hcomparable
    obtain ⟨value, hstored⟩ :=
      (Value.mem_of_readEntries hread).2 first hfirst rawKey rawValue key hsplit hkey
    have hthere : Value.hasKey read key' = true := by
      refine List.any_eq_true.mpr ⟨(key.asKey, value), hstored, ?_⟩
      rw [Value.sameKey_comm, Value.sameKey_asKey, Value.sameKey_comm]
      exact Value.sameKey_of_equals hequals hcomparable
    obtain ⟨text, htext⟩ := Value.exists_text_of_isComparable hcomparable
    refine ⟨text, htext, fun rest => ?_⟩
    rw [read_map, Value.readEntries_append, hread]
    simp only [Except.bind, Value.readEntries, hsplit', hkey', Outcome.ok_bind, hthere, if_true]
    simp only [Value.duplicateKey, htext]
    rfl
  · rename_i hobject
    rw [Bool.not_eq_true] at hobject
    rw [hobject] at hcomparable
    have hnew : Value.hasKey read key' = false :=
      Value.hasKey_eq_false.mpr fun e _ => Value.sameKey_object hpresent hcomparable e.1
    intro value hvalue
    rw [read_map, Value.readEntries_append, hread]
    simp only [Except.bind, Value.readEntries, hsplit', hkey', hvalue, Outcome.ok_bind, hnew]
    rw [if_neg (by simp), Value.storeEntry, if_neg (by simp [hnew]),
      Value.asKey_of_not_isComparable hcomparable]
    rfl

/-- The text `a`, once as text and once as its bytes. -/
theorem read_repeatedKey_bytes :
    (MapReader.native { }).read (.map (.primitive .string) (.primitive .int64) false) false
      (.list [.record [("key", .string "a"), ("value", .integer 1)],
        .record [("key", .bytes [97]), ("value", .integer 2)]]) =
      .error (.conversion
        { code := .invalidValue
          message := "Duplicate map key \"a\""
          fieldType := some "MAP<STRING, INT64>"
          valueType := some "string" }) := by
  let first : Value := .record [("key", .string "a"), ("value", .integer 1)]
  let second : Value := .record [("key", .bytes [97]), ("value", .integer 2)]
  have hbefore : (MapReader.native { }).read
      (.map (.primitive .string) (.primitive .int64) false) false (.list [first]) =
        .ok (.map [(.string "a", .integer 1)]) := rfl
  have hsplit : (MapReader.native { }).split
      (.map (.primitive .string) (.primitive .int64) false) first =
        .ok (.string "a", .integer 1) := rfl
  have hsplit' : (MapReader.native { }).split
      (.map (.primitive .string) (.primitive .int64) false) second =
        .ok (.bytes [97], .integer 2) := rfl
  obtain ⟨text, htext, hrefused⟩ :=
    read_repeatedKey (.native { }) hbefore List.mem_cons_self hsplit rfl hsplit' rfl (Or.inl rfl)
  obtain rfl := Except.ok.inj htext
  exact hrefused []

/-- A decimal that is a key twice is not refused, by either reader. -/
theorem read_repeatedDecimal :
    (MapReader.native { }).read (.map (.primitive .decimal) (.primitive .int64) false) false
      (.list [.record [("key", .bytes [5]), ("value", .integer 1)],
        .record [("key", .bytes [5]), ("value", .integer 2)]]) =
      .ok (.map [(.decimal ⟨5, Scale.ofInt 9⟩, .integer 1),
        (.decimal ⟨5, Scale.ofInt 9⟩, .integer 2)]) ∧
    MapReader.cells.read (.map (.primitive .decimal) (.primitive .int64) false) false
      (.list [.record [("key", .string "1.5"), ("value", .string "1")],
        .record [("key", .string "1.5"), ("value", .string "2")]]) =
      .ok (.map [(.decimal ⟨15, Scale.ofInt 1⟩, .integer 1),
        (.decimal ⟨15, Scale.ofInt 1⟩, .integer 2)]) := by
  refine ⟨rfl, ?_⟩
  have hliteral : Decimal.Spells "1.5".toList ⟨false, ['1'], ['5'], 0⟩ :=
    Decimal.readLiteral?_eq_some.mp rfl
  have hdecimal : Decimal.parse "1.5" = .ok ⟨15, Scale.ofInt 1⟩ :=
    Decimal.parse_of_hasExactScale hliteral (by decide)
  have hkey : MapReader.cells.read (.primitive .decimal) false (.string "1.5") =
      .ok (.decimal ⟨15, Scale.ofInt 1⟩) := by
    have hscalar : Cell.parseScalar (.primitive .decimal) "1.5" =
        .ok (some (.decimal ⟨15, Scale.ofInt 1⟩)) := by
      rw [Cell.parseScalar, PrimitiveKind.parseText, hdecimal]
      rfl
    rw [read, FieldType.parse_scalar _ _ rfl rfl, Cell.parseText, hscalar]
    rfl
  have hfirst : MapReader.cells.split (.map (.primitive .decimal) (.primitive .int64) false)
      (.record [("key", .string "1.5"), ("value", .string "1")]) =
        .ok (.string "1.5", .string "1") := rfl
  have hsecond : MapReader.cells.split (.map (.primitive .decimal) (.primitive .int64) false)
      (.record [("key", .string "1.5"), ("value", .string "2")]) =
        .ok (.string "1.5", .string "2") := rfl
  rw [read_map]
  simp only [Value.readEntries, hfirst, hsecond, hkey, Outcome.ok_bind]
  rfl

end MapReader

end WarehouseRows
