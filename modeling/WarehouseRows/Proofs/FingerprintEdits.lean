import WarehouseRows.Proofs.FingerprintSum
import WarehouseRows.Proofs.HashedBytes

/-!
# Edits that a fingerprint shows

A small change of one field changes exactly one of the hashes that its fingerprint adds up, and by
less than 2 ^ 32 either way. So little is not lost when the sum is reduced to 64 bits, neither at
the field nor in any of the messages around it.

## Main definitions

* `MessageField.Edit`: the changes of a field in question.
* `Descriptor.Edited`: descriptors that differ by one such change, at any depth.
-/

namespace WarehouseRows

/-! ## Changes of one field -/

namespace MessageField

/-- A change of one field: of its label from optional to another or back, of its type from one of
the listed types to another, messages apart, or of its name within one block of four bytes. -/
inductive Edit : MessageField → MessageField → Prop
  | label (name type : String) (message : Option (List MessageField)) {l l' : Label}
      (h : (l = .optional ∧ l' ≠ .optional) ∨ (l ≠ .optional ∧ l' = .optional)) :
      Edit ⟨name, type, l, message⟩ ⟨name, type, l', message⟩
  | type (name : String) (label : Label) (message : Option (List MessageField)) {t t' : String}
      (ht : t ∈ typeOrder) (ht' : t' ∈ typeOrder) (hm : t ≠ "MESSAGE") (hm' : t' ≠ "MESSAGE")
      (hne : t ≠ t') :
      Edit ⟨name, t, label, message⟩ ⟨name, t', label, message⟩
  | name (type : String) (label : Label) (message : Option (List MessageField)) {n n' : String}
      (h : Murmur3.DifferInBlock (Utf8.encode n) (Utf8.encode n')) :
      Edit ⟨n, type, label, message⟩ ⟨n', type, label, message⟩

/-- What a field adds for its nested message. -/
def nestedWeight (type : String) : Option (List MessageField) → Int
  | some message => if type = "MESSAGE" then total 0 message else 0
  | none => 0

theorem weight_eq_add (name type : String) (label : Label)
    (message : Option (List MessageField)) :
    weight ⟨name, type, label, message⟩ =
      ownWeight name type label + nestedWeight type message := by
  cases message with
  | none => rw [weight, nestedWeight, Int.add_zero]
  | some message => rw [weight, nestedWeight]

theorem nestedWeight_of_ne {type : String} (h : type ≠ "MESSAGE")
    (message : Option (List MessageField)) : nestedWeight type message = 0 := by
  cases message with
  | none => rfl
  | some message => rw [nestedWeight, if_neg h]

theorem ordinal_bounds (type : String) : -1 ≤ ordinal type ∧ ordinal type < 18 := by
  rw [ordinal]
  split
  · rename_i i hi
    obtain ⟨hlt, _⟩ := List.idxOf?_eq_some_iff.mp hi
    have hlength : typeOrder.length = 18 := rfl
    omega
  · omega

/-- A listed type has its place as its number, which no other type has. -/
theorem ordinal_of_mem {type : String} (h : type ∈ typeOrder) :
    ∃ i : Nat, ordinal type = (i : Int) ∧ typeOrder[i]? = some type := by
  rw [ordinal]
  split
  · rename_i i hi
    obtain ⟨hlt, htype, _⟩ := List.idxOf?_eq_some_iff.mp hi
    exact ⟨i, rfl, List.getElem?_eq_some_iff.mpr ⟨hlt, htype⟩⟩
  · rename_i hnone
    exact absurd h (List.idxOf?_eq_none_iff.mp hnone)

theorem hashInt_ordinal_ne {t t' : String} (ht : t ∈ typeOrder) (ht' : t' ∈ typeOrder)
    (hne : t ≠ t') : Murmur3.hashInt (ordinal t) ≠ Murmur3.hashInt (ordinal t') := by
  obtain ⟨i, hi, htype⟩ := ordinal_of_mem ht
  obtain ⟨j, hj, htype'⟩ := ordinal_of_mem ht'
  have hbounds := ordinal_bounds t
  have hbounds' := ordinal_bounds t'
  refine Murmur3.hashInt_ne (by omega) (by omega) fun heq => hne ?_
  obtain rfl : i = j := by omega
  exact Option.some.inj (htype.symm.trans htype')

/-- A change of a field changes what the field weighs, by less than 2 ^ 64. -/
theorem weight_ne_of_edit {f g : MessageField} (h : f.Edit g) :
    f.weight ≠ g.weight ∧ (f.weight - g.weight).natAbs < 2 ^ 64 := by
  cases h with
  | label name type message h =>
    rename_i l l'
    have hflag : Murmur3.hashInt 0 ≠ Murmur3.hashInt 1 :=
      Murmur3.hashInt_ne (by decide) (by decide) (by decide)
    have h0 := Murmur3.hash_bounds (Murmur3.intBytes 0)
    have h1 := Murmur3.hash_bounds (Murmur3.intBytes 1)
    rw [weight_eq_add, weight_eq_add, ownWeight, ownWeight]
    simp only [Murmur3.hashInt] at hflag ⊢
    -- one of the two flags changes, and the other is not set on either side
    rcases h with ⟨rfl, hne⟩ | ⟨hne, rfl⟩
    · cases l' with
      | optional => exact absurd rfl hne
      | required | repeated => simp only [reduceCtorEq, if_true, if_false]; omega
    · cases l with
      | optional => exact absurd rfl hne
      | required | repeated => simp only [reduceCtorEq, if_true, if_false]; omega
  | type name label message ht ht' hm hm' hne =>
    rename_i t t'
    have hordinal := hashInt_ordinal_ne ht ht' hne
    have hold := Murmur3.hash_bounds (Murmur3.intBytes (ordinal t))
    have hnew := Murmur3.hash_bounds (Murmur3.intBytes (ordinal t'))
    rw [weight_eq_add, weight_eq_add, nestedWeight_of_ne hm, nestedWeight_of_ne hm', ownWeight,
      ownWeight]
    simp only [Murmur3.hashInt] at hordinal ⊢
    omega
  | name type label message h =>
    rename_i n n'
    have hname : Murmur3.hashText n ≠ Murmur3.hashText n' := Murmur3.hash_ne h
    have hold := Murmur3.hash_bounds (Utf8.encode n)
    have hnew := Murmur3.hash_bounds (Utf8.encode n')
    rw [weight_eq_add, weight_eq_add, ownWeight, ownWeight]
    simp only [Murmur3.hashText] at hname ⊢
    omega

end MessageField

/-! ## Changes at any depth -/

namespace Descriptor

/-- Whether descriptors differ by one change of one field, in the descriptor itself or in a message
anywhere inside it. -/
inductive Edited : Descriptor → Descriptor → Prop
  | here (before after : Descriptor) {f g : MessageField} (h : f.Edit g) :
      Edited (before ++ f :: after) (before ++ g :: after)
  | nested {message message' : Descriptor} (before after : Descriptor) (name : String)
      (label : Label) (h : Edited message message') :
      Edited (before ++ ⟨name, "MESSAGE", label, some message⟩ :: after)
        (before ++ ⟨name, "MESSAGE", label, some message'⟩ :: after)

/-- A difference below 2 ^ 64 is not lost in the reduction. -/
theorem bmod_add_ne {x y : Int} (hne : x ≠ y) (hnear : (x - y).natAbs < 2 ^ 64) (c : Int) :
    Int.bmod (c + x) (2 ^ 64) ≠ Int.bmod (c + y) (2 ^ 64) := by
  intro heq
  have hzero : Int.bmod (x - y) (2 ^ 64) = 0 :=
    Int.bmod_eq_bmod_iff_bmod_sub_eq_zero.mp ((Int.bmod_add_cancel_left c).mp heq)
  have hdvd : ((2 ^ 64 : Nat) : Int) ∣ x - y := Int.dvd_of_bmod_eq_zero hzero
  omega

theorem fingerprint_middle (before after : Descriptor) (f : MessageField) :
    fingerprint (before ++ f :: after) =
      Int.bmod (before.fingerprint + after.fingerprint + f.weight) (2 ^ 64) := by
  have hone : fingerprint [f] = Int.bmod f.weight (2 ^ 64) := by
    rw [fingerprint, MessageField.total, MessageField.total, Int.zero_add]
    rfl
  have hsplit : before ++ f :: after = before ++ ([f] ++ after) := rfl
  rw [hsplit, fingerprint_append, fingerprint_append, hone, Int.bmod_add_bmod, Int.add_bmod_bmod]
  congr 1
  omega

/-- A field whose weight changes a little changes the fingerprint of the message around it. -/
theorem fingerprint_middle_ne (before after : Descriptor) {f g : MessageField}
    (h : f.weight ≠ g.weight ∧ (f.weight - g.weight).natAbs < 2 ^ 64) :
    fingerprint (before ++ f :: after) ≠ fingerprint (before ++ g :: after) := by
  rw [fingerprint_middle, fingerprint_middle]
  exact bmod_add_ne h.1 h.2 _

/-- Descriptors that differ by one change of one field, at any depth, have different
fingerprints. -/
theorem fingerprint_ne_of_edited {d e : Descriptor} (h : d.Edited e) :
    d.fingerprint ≠ e.fingerprint := by
  induction h with
  | here before after h =>
    exact fingerprint_middle_ne before after (MessageField.weight_ne_of_edit h)
  | @nested message message' before after name label _ ih =>
    apply fingerprint_middle_ne
    have hold := fingerprint_bounds message
    have hnew := fingerprint_bounds message'
    rw [MessageField.weight_eq_add, MessageField.weight_eq_add]
    simp only [MessageField.nestedWeight, if_true]
    simp only [fingerprint] at ih hold hnew
    omega

/-- A letter in the name of a field of a struct. -/
theorem fingerprint_ne_of_edited_letter :
    fingerprint
        [⟨"place", "MESSAGE", .optional,
            some [⟨"zip", "BYTES", .repeated, none⟩, ⟨"id", "INT64", .required, none⟩]⟩] ≠
      fingerprint
        [⟨"place", "MESSAGE", .optional,
            some [⟨"zip", "BYTES", .repeated, none⟩, ⟨"ix", "INT64", .required, none⟩]⟩] := by
  have hletter : Murmur3.DifferInBlock (Utf8.encode "id") (Utf8.encode "ix") := by
    refine ⟨by decide, by decide, 0, fun j hj => ?_⟩
    have hend : 2 ≤ j := by omega
    rw [List.getElem?_eq_none hend, List.getElem?_eq_none hend]
  exact fingerprint_ne_of_edited (.nested [] [] "place" .optional
    (.here [⟨"zip", "BYTES", .repeated, none⟩] [] (.name "INT64" .required none hletter)))

end Descriptor

end WarehouseRows
