import Mathlib.Data.List.Forall2
import WarehouseRows.Error.Failure

/-!
# Outcomes

A conversion gives a value or a failure, and a conversion of a list goes through the items
until one fails. The laws here take a success apart into the successes of its steps, and
put the successes of two conversions of a list, one after the other, together from those
at each item. A conversion of a list fails as its first item that does, and what is known of
the failures and the values of each step is known of those of the whole.

## Main definitions

* `Outcome.Ends`: an outcome whose failure has one property, and whose value another.
-/

namespace WarehouseRows.Outcome

variable {ε ε' α β γ : Type}

/-! ## Single steps -/

@[simp] theorem ok_bind (a : α) (f : α → Except ε β) : (Except.ok a >>= f) = f a := rfl

theorem bind_eq_ok {x : Except ε α} {f : α → Except ε β} {b : β} :
    x.bind f = .ok b ↔ ∃ a, x = .ok a ∧ f a = .ok b := by
  cases x with
  | error e => simp [Except.bind]
  | ok a => simp [Except.bind]

theorem map_eq_ok {x : Except ε α} {f : α → β} {b : β} :
    x.map f = .ok b ↔ ∃ a, x = .ok a ∧ f a = b := by
  cases x with
  | error e => simp [Except.map]
  | ok a => simp [Except.map]

theorem exists_map_iff {x : Except ε α} {f : α → β} :
    (∃ b, x.map f = .ok b) ↔ ∃ a, x = .ok a := by
  cases x with
  | error e => simp [Except.map]
  | ok a => simp [Except.map]

/-- What is said about a failure does not change what succeeds. -/
@[simp] theorem mapError_eq_ok {x : Except ε α} {f : ε → ε'} {a : α} :
    x.mapError f = .ok a ↔ x = .ok a := by
  constructor
  · intro h
    cases x with
    | error e => exact absurd (show Except.error (f e) = .ok a from h) (by simp)
    | ok b => exact congrArg Except.ok (Except.ok.inj h)
  · intro h
    rw [h]
    rfl

theorem toOption_eq_some {x : Except ε α} {a : α} : x.toOption = some a ↔ x = .ok a := by
  cases x with
  | error e => simp [Except.toOption]
  | ok b => simp [Except.toOption]

theorem bind_eq_error {x : Except ε α} {f : α → Except ε β} {e : ε} :
    x.bind f = .error e ↔ x = .error e ∨ ∃ a, x = .ok a ∧ f a = .error e := by
  cases x with
  | error e' => simp [Except.bind]
  | ok a => simp [Except.bind]

@[simp] theorem map_eq_error {x : Except ε α} {f : α → β} {e : ε} :
    x.map f = .error e ↔ x = .error e := by
  cases x with
  | error e' => simp [Except.map]
  | ok a => simp [Except.map]

theorem mapError_eq_error {x : Except ε α} {f : ε → ε'} {e : ε'} :
    x.mapError f = .error e ↔ ∃ e', x = .error e' ∧ f e' = e := by
  cases x with
  | error e' =>
    constructor
    · exact fun h => ⟨e', rfl, Except.error.inj h⟩
    · rintro ⟨_, h, rfl⟩
      rw [Except.error.inj h]
      rfl
  | ok a =>
    constructor
    · exact fun h => absurd (show Except.ok a = .error e from h) (by simp)
    · rintro ⟨_, h, _⟩
      exact absurd h (by simp)

/-! ## Lists -/

theorem mapM_cons_eq_ok {f : α → Except ε β} {x : α} {xs : List α} {zs : List β} :
    (x :: xs).mapM f = .ok zs ↔
      ∃ y ys, f x = .ok y ∧ xs.mapM f = .ok ys ∧ zs = y :: ys := by
  rw [List.mapM_cons]
  constructor
  · intro h
    obtain ⟨y, hy, h⟩ := bind_eq_ok.mp h
    obtain ⟨ys, hys, h⟩ := bind_eq_ok.mp h
    exact ⟨y, ys, hy, hys, (Except.ok.inj h).symm⟩
  · rintro ⟨y, ys, hy, hys, rfl⟩
    rw [hy, hys]
    rfl

/-- A list is converted to the results of its items, one for one and in order. -/
theorem mapM_eq_ok_iff {f : α → Except ε β} {xs : List α} {ys : List β} :
    xs.mapM f = .ok ys ↔ List.Forall₂ (fun x y => f x = .ok y) xs ys := by
  induction xs generalizing ys with
  | nil =>
    rw [List.forall₂_nil_left_iff]
    exact ⟨fun h => (Except.ok.inj h).symm, fun h => h ▸ rfl⟩
  | cons x xs ih =>
    simp only [mapM_cons_eq_ok, List.forall₂_cons_left_iff, ih]

/-- What the conversion of each item gives, all items of the result have. -/
theorem forall_of_mapM {f : α → Except ε β} {P : β → Prop} {xs : List α} {ys : List β}
    (h : xs.mapM f = .ok ys) (hP : ∀ x ∈ xs, ∀ y, f x = .ok y → P y) : ∀ y ∈ ys, P y := by
  induction xs generalizing ys with
  | nil =>
    obtain rfl : [] = ys := Except.ok.inj h
    exact fun y hy => absurd hy List.not_mem_nil
  | cons x xs ih =>
    obtain ⟨y, ys, hy, hys, rfl⟩ := mapM_cons_eq_ok.mp h
    intro z hz
    rcases List.mem_cons.mp hz with rfl | hz
    · exact hP x List.mem_cons_self z hy
    · exact ih hys (fun x hx => hP x (List.mem_cons_of_mem _ hx)) z hz

/-- What each item says of its result, all items say of all results. -/
theorem forall_mapM_iff {f : α → Except ε β} {P : β → Prop} {Q : α → Prop} {xs : List α}
    {ys : List β} (h : xs.mapM f = .ok ys)
    (hPQ : ∀ x ∈ xs, ∀ y, f x = .ok y → (P y ↔ Q x)) : (∀ y ∈ ys, P y) ↔ ∀ x ∈ xs, Q x := by
  induction xs generalizing ys with
  | nil =>
    obtain rfl : [] = ys := Except.ok.inj h
    simp
  | cons x xs ih =>
    obtain ⟨y, ys, hy, hys, rfl⟩ := mapM_cons_eq_ok.mp h
    rw [List.forall_mem_cons, List.forall_mem_cons, hPQ x List.mem_cons_self y hy,
      ih hys fun x hx => hPQ x (List.mem_cons_of_mem _ hx)]

/-- A list is converted if each of its items is. -/
theorem exists_mapM {f : α → Except ε β} {P : β → Prop} {xs : List α}
    (h : ∀ x ∈ xs, ∃ y, f x = .ok y ∧ P y) : ∃ ys, xs.mapM f = .ok ys ∧ ∀ y ∈ ys, P y := by
  induction xs with
  | nil => exact ⟨[], rfl, fun y hy => absurd hy List.not_mem_nil⟩
  | cons x xs ih =>
    obtain ⟨y, hy, hPy⟩ := h x List.mem_cons_self
    obtain ⟨ys, hys, hPys⟩ := ih fun x hx => h x (List.mem_cons_of_mem _ hx)
    refine ⟨y :: ys, mapM_cons_eq_ok.mpr ⟨y, ys, hy, hys, rfl⟩, ?_⟩
    intro z hz
    rcases List.mem_cons.mp hz with rfl | hz
    · exact hPy
    · exact hPys z hz

/-- A list is converted just if each of its items is. -/
theorem exists_mapM_iff {f : α → Except ε β} {xs : List α} :
    (∃ ys, xs.mapM f = .ok ys) ↔ ∀ x ∈ xs, ∃ y, f x = .ok y := by
  induction xs with
  | nil =>
    constructor
    · exact fun _ x hx => absurd hx List.not_mem_nil
    · exact fun _ => ⟨[], rfl⟩
  | cons x xs ih =>
    simp only [mapM_cons_eq_ok, List.forall_mem_cons, ← ih]
    constructor
    · rintro ⟨_, y, ys, hy, hys, _⟩
      exact ⟨⟨y, hy⟩, ys, hys⟩
    · rintro ⟨⟨y, hy⟩, ys, hys⟩
      exact ⟨y :: ys, y, ys, hy, hys, rfl⟩

/-- Two conversions of a list, one after the other, do at each item what they do there
alone. -/
theorem exists_mapM_mapM {f : α → Except ε β} {g : β → Except ε' γ} {k : α → γ} {xs : List α}
    (h : ∀ x ∈ xs, ∃ y, f x = .ok y ∧ g y = .ok (k x)) :
    ∃ ys, xs.mapM f = .ok ys ∧ ys.mapM g = .ok (xs.map k) := by
  induction xs with
  | nil => exact ⟨[], rfl, rfl⟩
  | cons x xs ih =>
    obtain ⟨y, hf, hg⟩ := h x List.mem_cons_self
    obtain ⟨ys, hfs, hgs⟩ := ih fun x hx => h x (List.mem_cons_of_mem _ hx)
    exact ⟨y :: ys, mapM_cons_eq_ok.mpr ⟨y, ys, hf, hfs, rfl⟩,
      mapM_cons_eq_ok.mpr ⟨k x, xs.map k, hg, hgs, rfl⟩⟩

/-- A conversion of a list fails as its first item that is not converted does; what stands behind
this item does not matter. -/
theorem mapM_eq_error {f : α → Except ε β} {xs : List α} {e : ε} :
    xs.mapM f = .error e ↔ ∃ before x after, xs = before ++ x :: after ∧
      (∀ y ∈ before, ∃ z, f y = .ok z) ∧ f x = .error e := by
  constructor
  · intro h
    induction xs with
    | nil => exact absurd (show Except.ok [] = .error e from h) (by simp)
    | cons x xs ih =>
      rw [List.mapM_cons] at h
      cases hx : f x with
      | error e' =>
        rw [hx] at h
        obtain rfl : e' = e := Except.error.inj h
        exact ⟨[], x, xs, rfl, fun _ hy => absurd hy List.not_mem_nil, hx⟩
      | ok z =>
        rw [hx, ok_bind] at h
        cases hxs : xs.mapM f with
        | ok ys =>
          rw [hxs] at h
          exact absurd (show Except.ok (z :: ys) = .error e from h) (by simp)
        | error e' =>
          rw [hxs] at h
          obtain rfl : e' = e := Except.error.inj h
          obtain ⟨before, y, after, rfl, hbefore, hy⟩ := ih hxs
          refine ⟨x :: before, y, after, rfl, ?_, hy⟩
          exact List.forall_mem_cons.mpr ⟨⟨z, hx⟩, hbefore⟩
  · rintro ⟨before, x, after, rfl, hbefore, hx⟩
    induction before with
    | nil =>
      rw [List.nil_append, List.mapM_cons, hx]
      rfl
    | cons y before ih =>
      obtain ⟨⟨z, hz⟩, hbefore⟩ := List.forall_mem_cons.mp hbefore
      rw [List.cons_append, List.mapM_cons, hz, ok_bind, ih hbefore]
      rfl

/-! ## How outcomes end -/

/-- Whether an outcome, if it is a failure, has one property, and if it is a value, another. -/
def Ends (P : ε → Prop) (Q : α → Prop) : Except ε α → Prop
  | .error e => P e
  | .ok a => Q a

variable {P : ε → Prop} {P' : ε' → Prop} {Q : α → Prop} {R : β → Prop}

theorem Ends.error {x : Except ε α} (h : Ends P Q x) {e : ε} (hx : x = .error e) : P e := by
  rw [hx] at h
  exact h

theorem Ends.bind {x : Except ε α} {f : α → Except ε β} (hx : Ends P Q x)
    (hf : ∀ a, Q a → Ends P R (f a)) : Ends P R (x >>= f) := by
  cases x with
  | error e => exact hx
  | ok a => exact hf a hx

theorem Ends.map {x : Except ε α} {f : α → β} (hx : Ends P Q x) (hf : ∀ a, Q a → R (f a)) :
    Ends P R (x.map f) := by
  cases x with
  | error e => exact hx
  | ok a => exact hf a hx

theorem Ends.mapError {x : Except ε α} {f : ε → ε'} (hx : Ends P Q x) (hf : ∀ e, P e → P' (f e)) :
    Ends P' Q (x.mapError f) := by
  cases x with
  | error e => exact hf e hx
  | ok a => exact hx

theorem Ends.mapM {f : α → Except ε β} {xs : List α} (h : ∀ x ∈ xs, Ends P R (f x)) :
    Ends P (fun _ => True) (xs.mapM f) := by
  cases hxs : xs.mapM f with
  | ok ys => exact trivial
  | error e =>
    obtain ⟨before, x, after, rfl, _, hx⟩ := mapM_eq_error.mp hxs
    exact (h x (List.mem_append_right _ List.mem_cons_self)).error hx

theorem Ends.forIn {f : α → β → Except ε (ForInStep β)} {xs : List α} {b : β}
    (h : ∀ x b, Ends P (fun _ => True) (f x b)) : Ends P (fun _ => True) (forIn xs b f) := by
  induction xs generalizing b with
  | nil => exact trivial
  | cons x xs ih =>
    rw [List.forIn_cons]
    refine (h x b).bind fun step _ => ?_
    cases step with
    | done b => exact trivial
    | yield b => exact ih

end WarehouseRows.Outcome
