import WarehouseRows.Value.Entries
import WarehouseRows.Proofs.Outcome

/-!
# Map entries

Reading entries one after another keeps their keys apart: a key is stored only if no key
before it is the same, and in a form that is the same key still. Entries whose keys are
apart are therefore all read, in their order.
-/

namespace WarehouseRows.Value

/-- Whether no two entries have the same key. -/
def KeysApart (entries : List (Value × Value)) : Prop :=
  entries.Pairwise fun a b => a.1.sameKey b.1 = false

/-! ## Stored keys -/

/-- All zeros are the same number, and no other number is. -/
theorem equal_of_isZero {x : Double} (y : Double) (h : x.isZero = true) :
    y.equal x = y.isZero := by
  have hx : ∃ negative e, x = .finite negative 0 e := by
    cases x with
    | finite negative m e =>
      cases m with
      | zero => exact ⟨negative, e, rfl⟩
      | succ m => exact absurd h (by simp [Double.isZero])
    | nan => exact absurd h (by simp [Double.isZero])
    | infinity negative => exact absurd h (by simp [Double.isZero])
  obtain ⟨negative, e, rfl⟩ := hx
  cases y with
  | nan => rfl
  | infinity _ => simp [Double.equal, Double.isZero]
  | finite _ m _ =>
    cases m with
    | zero => simp [Double.equal, Double.isZero]
    | succ m => simp [Double.equal, Double.isZero]

theorem isNaN_of_isZero {x : Double} (h : x.isZero = true) : x.isNaN = false := by
  cases x with
  | nan => exact absurd h (by simp [Double.isZero])
  | infinity _ => rfl
  | finite _ _ _ => rfl

/-- The form in which a key is stored is the same key. -/
theorem sameKey_asKey (a b : Value) : a.sameKey b.asKey = a.sameKey b := by
  cases b with
  | number x =>
    by_cases h : x.isZero = true
    · cases a with
      | number y =>
        have hzero : Double.zero.isZero = true := rfl
        simp only [asKey, h, if_true, sameKey, equal_of_isZero y h, equal_of_isZero y hzero,
          isNaN_of_isZero h, isNaN_of_isZero hzero]
      | _ => rfl
    · simp only [asKey, h]
      rfl
  | _ => rfl

theorem hasKey_eq_false {entries : List (Value × Value)} {key : Value} :
    hasKey entries key = false ↔ ∀ e ∈ entries, e.1.sameKey key = false := by
  simp [hasKey]

/-- A new key comes behind the others and is apart from them. -/
theorem keysApart_storeEntry {entries : List (Value × Value)} {key : Value} (value : Value)
    (hold : KeysApart entries) (hnew : hasKey entries key = false) :
    KeysApart (entries ++ [(key.asKey, value)]) := by
  refine List.pairwise_append.mpr ⟨hold, List.pairwise_singleton .., ?_⟩
  intro e he e' he'
  obtain rfl := List.mem_singleton.mp he'
  rw [sameKey_asKey]
  exact hasKey_eq_false.mp hnew e he

/-! ## Reading entries -/

variable {split : Value → Except Failure (Value × Value)}
  {readKey readValue : Value → Except Failure Value} {duplicate : Value → Failure}

/-- An entry is read if its key and its value are and the key is new, and comes behind those that
were read before it. -/
theorem readEntries_cons_eq_ok {item : Value} {items : List Value}
    {entries result : List (Value × Value)}
    (h : readEntries split readKey readValue duplicate entries (item :: items) = .ok result) :
    ∃ rawKey rawValue key value, split item = .ok (rawKey, rawValue) ∧
      readKey rawKey = .ok key ∧ hasKey entries key = false ∧ readValue rawValue = .ok value ∧
      readEntries split readKey readValue duplicate (entries ++ [(key.asKey, value)]) items =
        .ok result := by
  rw [readEntries] at h
  obtain ⟨⟨rawKey, rawValue⟩, hsplit, h⟩ := Outcome.bind_eq_ok.mp h
  obtain ⟨key, hkey, h⟩ := Outcome.bind_eq_ok.mp h
  split at h
  · exact absurd h (by simp)
  · rename_i hnew
    obtain ⟨value, hvalue, h⟩ := Outcome.bind_eq_ok.mp h
    rw [storeEntry, if_neg hnew] at h
    exact ⟨rawKey, rawValue, key, value, hsplit, hkey, Bool.not_eq_true _ ▸ hnew, hvalue, h⟩

/-- The entries that are read have keys that are apart, and what the readers of keys and of
values give, all keys and values have. -/
theorem readEntries_inv {K V : Value → Prop} (hK : ∀ raw key, readKey raw = .ok key → K key.asKey)
    (hV : ∀ raw value, readValue raw = .ok value → V value)
    {items : List Value} {entries result : List (Value × Value)}
    (hread : readEntries split readKey readValue duplicate entries items = .ok result)
    (hapart : KeysApart entries) (hall : ∀ e ∈ entries, K e.1 ∧ V e.2) :
    KeysApart result ∧ ∀ e ∈ result, K e.1 ∧ V e.2 := by
  induction items generalizing entries with
  | nil =>
    obtain rfl := Except.ok.inj hread
    exact ⟨hapart, hall⟩
  | cons item items ih =>
    obtain ⟨rawKey, rawValue, key, value, _, hkey, hnew, hvalue, hread⟩ :=
      readEntries_cons_eq_ok hread
    refine ih hread (keysApart_storeEntry value hapart hnew) ?_
    intro e he
    rcases List.mem_append.mp he with he | he
    · exact hall e he
    · obtain rfl := List.mem_singleton.mp he
      exact ⟨hK rawKey key hkey, hV rawValue value hvalue⟩

/-- What each raw key and each raw value says of what is read from it, all of them say of the
entries that are read. -/
theorem forall_readEntries_iff {P QK QV : Value → Prop}
    (hK : ∀ raw key, readKey raw = .ok key → (P key.asKey ↔ QK raw))
    (hV : ∀ raw value, readValue raw = .ok value → (P value ↔ QV raw))
    {items : List Value} {entries result : List (Value × Value)}
    (hread : readEntries split readKey readValue duplicate entries items = .ok result) :
    (∀ e ∈ result, P e.1 ∧ P e.2) ↔ (∀ e ∈ entries, P e.1 ∧ P e.2) ∧
      ∀ item ∈ items, ∀ entry, split item = .ok entry → QK entry.1 ∧ QV entry.2 := by
  induction items generalizing entries with
  | nil =>
    obtain rfl := Except.ok.inj hread
    simp
  | cons item items ih =>
    obtain ⟨rawKey, rawValue, key, value, hsplit, hkey, _, hvalue, hread⟩ :=
      readEntries_cons_eq_ok hread
    have hentry : (∀ entry, split item = .ok entry → QK entry.1 ∧ QV entry.2) ↔
        P key.asKey ∧ P value := by
      rw [hsplit, hK rawKey key hkey, hV rawValue value hvalue]
      exact ⟨fun h => h _ rfl, fun h entry hentry => Except.ok.inj hentry ▸ h⟩
    rw [ih hread, List.forall_mem_append, List.forall_mem_singleton, List.forall_mem_cons, hentry,
      and_assoc]

/-- Entries that are written one by one and read back are the entries that each gives, if
the keys of these are apart. -/
theorem exists_mapM_readEntries (duplicate : Value → Failure)
    {write : Value × Value → Except Failure Value} (back : Value × Value → Value × Value)
    {es : List (Value × Value)}
    (h : ∀ e ∈ es, ∃ item rawKey rawValue, write e = .ok item ∧
      split item = .ok (rawKey, rawValue) ∧ readKey rawKey = .ok (back e).1 ∧
      readValue rawValue = .ok (back e).2 ∧ (back e).1.asKey = (back e).1)
    (entries : List (Value × Value)) (hapart : KeysApart (entries ++ es.map back)) :
    ∃ items, es.mapM write = .ok items ∧
      readEntries split readKey readValue duplicate entries items =
        .ok (entries ++ es.map back) := by
  induction es generalizing entries with
  | nil => exact ⟨[], rfl, by simp [readEntries]⟩
  | cons e es ih =>
    obtain ⟨item, rawKey, rawValue, hwrite, hsplit, hkey, hvalue, hform⟩ := h e List.mem_cons_self
    have hnew : hasKey entries (back e).1 = false := by
      refine hasKey_eq_false.mpr fun e' he' => ?_
      exact (List.pairwise_append.mp hapart).2.2 e' he' (back e) List.mem_cons_self
    have hmoved : entries ++ (e :: es).map back = entries ++ [back e] ++ es.map back := by
      simp
    rw [hmoved] at hapart ⊢
    obtain ⟨items, hitems, hread⟩ :=
      ih (fun e he => h e (List.mem_cons_of_mem _ he)) (entries ++ [back e]) hapart
    refine ⟨item :: items, Outcome.mapM_cons_eq_ok.mpr ⟨item, items, hwrite, hitems, rfl⟩, ?_⟩
    have hstore : storeEntry entries (back e).1 (back e).2 = entries ++ [back e] := by
      rw [storeEntry, if_neg (by simp [hnew]), hform]
    simp only [readEntries, hsplit, hkey, hvalue, hstore, Outcome.ok_bind]
    rw [if_neg (by simp [hnew]), hread]

end WarehouseRows.Value
