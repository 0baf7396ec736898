import WarehouseRows.Proofs.CalendarText
import WarehouseRows.Proofs.DecimalText
import WarehouseRows.Proofs.Entries

/-!
# Values without signed zeros inside

The parts of dates, times and decimals are integers whose zero may carry a minus sign. No
text shows it, and the equality of these sorts does not see it. A value is made plain by
dropping these signs, wherever they are nested, and stays the same value.

## Main definitions

* `Value.plain`: the value without the signs.
* `Value.Same`: equality of values, where dates, times and decimals are compared as their
  sorts compare them.
-/

namespace WarehouseRows

namespace Value

mutual

/-- The value without minus signs of zeros inside dates, times and decimals. -/
def plain : Value → Value
  | .decimal d => .decimal d.plain
  | .date d => .date d.plain
  | .time t => .time t.plain
  | .dateTime x => .dateTime x.plain
  | .list items => .list (plainItems items)
  | .map entries => .map (plainEntries entries)
  | v => v

/-- The items without such signs. -/
def plainItems : List Value → List Value
  | [] => []
  | item :: rest => plain item :: plainItems rest

/-- The entries without such signs. -/
def plainEntries : List (Value × Value) → List (Value × Value)
  | [] => []
  | (key, value) :: rest => (plain key, plain value) :: plainEntries rest

end

theorem plainItems_eq (items : List Value) : plainItems items = items.map plain := by
  induction items with
  | nil => rfl
  | cons item rest ih => rw [plainItems, ih, List.map_cons]

theorem plainEntries_eq (entries : List (Value × Value)) :
    plainEntries entries = entries.map fun e => (e.1.plain, e.2.plain) := by
  induction entries with
  | nil => rfl
  | cons e rest ih => rw [plainEntries, ih, List.map_cons]

@[simp] theorem plain_list (items : List Value) :
    (Value.list items).plain = .list (items.map plain) := by
  rw [plain, plainItems_eq]

@[simp] theorem plain_map (entries : List (Value × Value)) :
    (Value.map entries).plain = .map (entries.map fun e => (e.1.plain, e.2.plain)) := by
  rw [plain, plainEntries_eq]

@[simp] theorem isAbsent_plain (v : Value) : v.plain.isAbsent = v.isAbsent := by
  cases v <;> rfl

/-! ## Keys -/

@[simp] theorem asKey_plain (v : Value) : v.plain.asKey = v.asKey.plain := by
  cases v <;> rfl

/-- Only keys that are compared as objects have parts with signs. -/
@[simp] theorem sameKey_plain (a b : Value) : a.plain.sameKey b.plain = a.sameKey b := by
  cases a with
  | null | missing | bool | number | integer | string => cases b <;> rfl
  | _ => rfl

theorem keysApart_plain {entries : List (Value × Value)} (h : KeysApart entries) :
    KeysApart (entries.map fun e => (e.1.plain, e.2.plain)) := by
  refine List.pairwise_map.mpr (h.imp ?_)
  intro a b hab
  rw [sameKey_plain]
  exact hab

/-! ## The same value -/

mutual

/-- Whether two values are the same: lists item by item, maps entry by entry in order, and
dates, times and decimals as these compare themselves. -/
def Same : Value → Value → Prop
  | .decimal a, .decimal b => a.same b = true
  | .date a, .date b => a.same b = true
  | .time a, .time b => a.same b = true
  | .dateTime a, .dateTime b => a.same b = true
  | .list as, .list bs => SameItems as bs
  | .map as, .map bs => SameEntries as bs
  | a, b => a = b

/-- Whether two lists hold the same items. -/
def SameItems : List Value → List Value → Prop
  | [], [] => True
  | a :: as, b :: bs => Same a b ∧ SameItems as bs
  | _, _ => False

/-- Whether two lists hold the same entries. -/
def SameEntries : List (Value × Value) → List (Value × Value) → Prop
  | [], [] => True
  | (k, a) :: as, (l, b) :: bs => (Same k l ∧ Same a b) ∧ SameEntries as bs
  | _, _ => False

end

/-- Values that agree item by item make up the same list. -/
theorem sameItems_map {items : List Value} {f : Value → Value}
    (h : ∀ item ∈ items, Same (f item) item) : SameItems (items.map f) items := by
  induction items with
  | nil => exact trivial
  | cons item rest ih =>
    exact ⟨h item List.mem_cons_self, ih fun i hi => h i (List.mem_cons_of_mem _ hi)⟩

theorem sameEntries_map {entries : List (Value × Value)} {f : Value × Value → Value × Value}
    (h : ∀ e ∈ entries, Same (f e).1 e.1 ∧ Same (f e).2 e.2) :
    SameEntries (entries.map f) entries := by
  induction entries with
  | nil => exact trivial
  | cons e rest ih =>
    exact ⟨h e List.mem_cons_self, ih fun i hi => h i (List.mem_cons_of_mem _ hi)⟩

end Value

/-! ## Plain parts are the same parts -/

theorem Decimal.same_plain (d : Decimal) : d.plain.same d = true := by
  obtain ⟨unscaled, scale⟩ := d
  cases scale with
  | places n => simp [plain, same, Scale.same]
  | unbounded negative => simp [plain, same, Scale.same]

theorem LocalDate.same_plain {date : LocalDate} (h : date.IsReal) :
    date.plain.same date = true := by
  cases date with
  | invalid => exact absurd h id
  | on year month day => simp [plain, same]

theorem LocalTime.same_plain (t : LocalTime) : t.plain.same t = true := by
  simp [plain, same, nanoOfDay]

theorem LocalDateTime.same_plain {x : LocalDateTime} (h : x.date.IsReal) :
    x.plain.same x = true := by
  simp [plain, same, LocalDate.same_plain h, LocalTime.same_plain]

end WarehouseRows
