import WarehouseRows.Proofs.RepeatedKeys
import WarehouseRows.Row.Encode

/-!
# No entry is lost

A map stores an entry in the place of one with the same key, so that entries could get lost on the
way into a map. Both readers refuse a key that is there already: a list is read as a map just if
each of its items is read as an entry and no two of the keys are the same. The entries of the map
are then those of the items, one for one and in order. The writer makes a record of each entry.

## Main definitions

* `Value.ReadsEntry`: an item of a list and the entry that is read from it.
* `MapReader.HoldsEntry`: where the two readers look for keys and values.

## Main results

* `Value.readEntries_eq_ok_iff`: which lists of entries are read.
* `FieldType.keepsEntries_map`: readers and writer keep all entries of a map.
-/

namespace WarehouseRows

/-! ## Entries that are read -/

namespace Value

/-- Whether an item is read as an entry: its raw key and its raw value are read, and the key is
stored without the sign of a zero. -/
def ReadsEntry (split : Value → Except Failure (Value × Value))
    (readKey readValue : Value → Except Failure Value) (item : Value) (e : Value × Value) : Prop :=
  ∃ rawKey rawValue key, split item = .ok (rawKey, rawValue) ∧ readKey rawKey = .ok key ∧
    e.1 = key.asKey ∧ readValue rawValue = .ok e.2

variable {split : Value → Except Failure (Value × Value)}
  {readKey readValue : Value → Except Failure Value} {duplicate : Value → Failure}

/-- An item whose entry is new joins the entries that were read before it. -/
theorem readEntries_cons_of_new {item : Value} {items : List Value}
    {entries : List (Value × Value)} {e : Value × Value}
    (h : ReadsEntry split readKey readValue item e)
    (hnew : ∀ e' ∈ entries, e'.1.sameKey e.1 = false) :
    readEntries split readKey readValue duplicate entries (item :: items) =
      readEntries split readKey readValue duplicate (entries ++ [e]) items := by
  obtain ⟨rawKey, rawValue, key, hsplit, hkey, hstored, hvalue⟩ := h
  have hfree : hasKey entries key = false := by
    refine hasKey_eq_false.mpr fun e' he' => ?_
    rw [← sameKey_asKey, ← hstored]
    exact hnew e' he'
  have hstore : storeEntry entries key e.2 = entries ++ [e] := by
    rw [storeEntry, if_neg (by simp [hfree]), ← hstored]
  rw [readEntries, hsplit]
  simp only [Outcome.ok_bind, hkey, hvalue, hfree, hstore, Bool.false_eq_true, if_false]

/-- A list of entries is read just if each item is, as an entry, and all keys are apart. -/
theorem readEntries_eq_ok_iff {items : List Value} {entries result : List (Value × Value)}
    (hapart : KeysApart entries) :
    readEntries split readKey readValue duplicate entries items = .ok result ↔
      ∃ new, result = entries ++ new ∧
        List.Forall₂ (ReadsEntry split readKey readValue) items new ∧ KeysApart result := by
  induction items generalizing entries with
  | nil =>
    simp only [List.forall₂_nil_left_iff, readEntries]
    constructor
    · rintro ⟨⟩
      exact ⟨[], (List.append_nil _).symm, rfl, hapart⟩
    · rintro ⟨new, rfl, rfl, -⟩
      rw [List.append_nil]
  | cons item items ih =>
    constructor
    · intro h
      obtain ⟨rawKey, rawValue, key, value, hsplit, hkey, hnew, hvalue, h⟩ :=
        readEntries_cons_eq_ok h
      obtain ⟨new, rfl, hitems, hall⟩ := (ih (keysApart_storeEntry value hapart hnew)).mp h
      exact ⟨(key.asKey, value) :: new, List.append_assoc .., .cons
        ⟨rawKey, rawValue, key, hsplit, hkey, rfl, hvalue⟩ hitems, hall⟩
    · rintro ⟨new, rfl, hitems, hall⟩
      obtain ⟨e, rest, hitem, hrest, rfl⟩ := List.forall₂_cons_left_iff.mp hitems
      have hnew : ∀ e' ∈ entries, e'.1.sameKey e.1 = false := fun e' he' =>
        (List.pairwise_append.mp hall).2.2 e' he' e List.mem_cons_self
      have hmoved : entries ++ e :: rest = entries ++ [e] ++ rest := by simp
      have hfront : KeysApart (entries ++ [e]) := by
        rw [hmoved] at hall
        exact (List.pairwise_append.mp hall).1
      rw [readEntries_cons_of_new hitem hnew]
      exact (ih hfront).mpr ⟨rest, hmoved, hrest, hall⟩

end Value

/-! ## The two readers -/

namespace MapReader

/-- Whether an item is an entry with a raw key and a raw value. The one reader takes the first two
values of a record for them; the other looks for them by name in an object, which may be wrapped as
a cell. What is not there is missing. -/
def HoldsEntry (reader : MapReader) (item rawKey rawValue : Value) : Prop :=
  match reader with
  | native _ =>
    Avro.isRecord item = true ∧ rawKey = item.ownValues.getD 0 .missing ∧
      rawValue = item.ownValues.getD 1 .missing
  | cells =>
    (Cell.unwrap item).isObject = true ∧ rawKey = (Cell.unwrap item).member "key" ∧
      rawValue = (Cell.unwrap item).member "value"

theorem split_eq_ok_iff {reader : MapReader} {type : FieldType} {item rawKey rawValue : Value} :
    reader.split type item = .ok (rawKey, rawValue) ↔ reader.HoldsEntry item rawKey rawValue := by
  cases reader with
  | native options =>
    rw [split, HoldsEntry, Avro.splitEntry]
    split
    · rename_i hrecord
      rw [and_iff_right hrecord]
      rcases item.ownValues with _ | ⟨key, _ | ⟨value, rest⟩⟩ <;>
        simp [eq_comm]
    · rename_i hrecord
      exact iff_of_false (by simp) fun h => hrecord h.1
  | cells =>
    simp only [split, HoldsEntry, Cell.splitEntry]
    split
    · rename_i hobject
      rw [and_iff_right hobject, Except.ok.injEq, Prod.mk.injEq, eq_comm, @eq_comm _ rawValue]
      rfl
    · rename_i hobject
      exact iff_of_false (by simp) fun h => hobject h.1

/-- Whether an item of a list is read as an entry of a map: it holds the entry, and key and value
are read, the key without the sign of a zero. -/
def Gives (reader : MapReader) (keyType valueType : FieldType) (valueNullable : Bool)
    (item : Value) (e : Value × Value) : Prop :=
  ∃ rawKey rawValue key, reader.HoldsEntry item rawKey rawValue ∧
    reader.read keyType false rawKey = .ok key ∧ e.1 = key.asKey ∧
    reader.read valueType valueNullable rawValue = .ok e.2

/-- Both readers read a list as a map just if each item gives an entry, and all keys are apart. -/
theorem read_map_eq_ok_iff {reader : MapReader} {keyType valueType : FieldType}
    {valueNullable nullable : Bool} {items : List Value} {result : Value} :
    reader.read (.map keyType valueType valueNullable) nullable (.list items) = .ok result ↔
      ∃ entries, result = .map entries ∧ Value.KeysApart entries ∧
        List.Forall₂ (reader.Gives keyType valueType valueNullable) items entries := by
  have hgives : Value.ReadsEntry (reader.split (.map keyType valueType valueNullable))
      (reader.read keyType false) (reader.read valueType valueNullable) =
        reader.Gives keyType valueType valueNullable := by
    funext item e
    simp only [Value.ReadsEntry, Gives, split_eq_ok_iff]
  simp only [read_map, Outcome.map_eq_ok, Value.readEntries_eq_ok_iff List.Pairwise.nil,
    List.nil_append, hgives]
  constructor
  · rintro ⟨entries, ⟨_, rfl, hitems, hapart⟩, rfl⟩
    exact ⟨entries, rfl, hapart, hitems⟩
  · rintro ⟨entries, rfl, hapart, hitems⟩
    exact ⟨entries, ⟨entries, rfl, hitems, hapart⟩, rfl⟩

end MapReader

/-! ## Maps that are written -/

namespace FieldType

/-- Whether a record is what is written of an entry of a map. -/
def Writes (keyType valueType : FieldType) (valueNullable : Bool) (e : Value × Value)
    (record : Value) : Prop :=
  ∃ key value, encode keyType false e.1 = .ok key ∧
    encode valueType valueNullable e.2 = .ok value ∧
    record = .record [("key", key), ("value", value)]

/-- A map is written just if each of its entries is, as the list of what is written of them. -/
theorem encode_map_eq_ok_iff {keyType valueType : FieldType} {valueNullable nullable : Bool}
    {entries : List (Value × Value)} {cell : Value} :
    encode (.map keyType valueType valueNullable) nullable (.map entries) = .ok cell ↔
      ∃ records, cell = .list records ∧
        List.Forall₂ (Writes keyType valueType valueNullable) entries records := by
  have hwrites : (fun (e : Value × Value) record => (do
      let key ← encode keyType false e.1
      let cell ← encode valueType valueNullable e.2
      pure (Cell.entry key cell) : Except Failure Value) = .ok record) =
        Writes keyType valueType valueNullable := by
    funext e record
    refine propext ⟨fun h => ?_, ?_⟩
    · obtain ⟨key, hkey, h⟩ := Outcome.bind_eq_ok.mp h
      obtain ⟨value, hvalue, h⟩ := Outcome.bind_eq_ok.mp h
      exact ⟨key, value, hkey, hvalue, (Except.ok.inj h).symm⟩
    · rintro ⟨key, value, hkey, hvalue, rfl⟩
      rw [hkey, hvalue]
      rfl
  have hmap : encode (.map keyType valueType valueNullable) nullable (.map entries) =
      (entries.mapM fun (e : Value × Value) => do
        let key ← encode keyType false e.1
        let cell ← encode valueType valueNullable e.2
        pure (Cell.entry key cell)).map .list := by
    rw [encode, if_neg (by simp [Cell.isNull])]
    rfl
  rw [hmap, Outcome.map_eq_ok]
  simp only [Outcome.mapM_eq_ok_iff, hwrites]
  constructor
  · rintro ⟨records, hrecords, rfl⟩
    exact ⟨records, rfl, hrecords⟩
  · rintro ⟨records, rfl, hrecords⟩
    exact ⟨records, hrecords, rfl⟩

/-- No entry of a map is lost. What the readers make of a list at a map type is a map with one entry
for each item, in order, and with keys that are apart; a list that gives such entries is read. What
is written of a map is a list with one record for each entry, in order. -/
theorem keepsEntries_map (keyType valueType : FieldType) (valueNullable nullable : Bool) :
    (∀ (reader : MapReader) (items : List Value) (result : Value),
      reader.read (.map keyType valueType valueNullable) nullable (.list items) = .ok result ↔
        ∃ entries, result = .map entries ∧ Value.KeysApart entries ∧
          List.Forall₂ (reader.Gives keyType valueType valueNullable) items entries) ∧
    ∀ (entries : List (Value × Value)) (cell : Value),
      encode (.map keyType valueType valueNullable) nullable (.map entries) = .ok cell ↔
        ∃ records, cell = .list records ∧
          List.Forall₂ (Writes keyType valueType valueNullable) entries records :=
  ⟨fun _ _ _ => MapReader.read_map_eq_ok_iff, fun _ _ => encode_map_eq_ok_iff⟩

end FieldType

end WarehouseRows
