import Mathlib
import WarehouseRows.Fingerprint.Descriptor

/-!
# The fingerprint as one sum

The fingerprint of a descriptor is reduced to 64 bits after every field, and inside every nested
message on the way. Reducing early does no harm: the fingerprint is the plain sum of the hashes of
all fields that nested messages lead to, reduced once. So neither the order of the fields nor the
way in which they are dealt out to lists matters, at any depth.

## Main definitions

* `Descriptor.reachable`: the fields of a descriptor and of the messages nested in it.
* `Descriptor.Rearranged`: descriptors that differ by the order of fields, at any depth.
-/

namespace WarehouseRows

/-! ## The fields of nested messages -/

namespace MessageField

/-- The hashes of a field alone: of its name, of the two flags of its label and of its type. -/
def ownHash (f : MessageField) : Int :=
  Murmur3.hashText f.name + Murmur3.hashInt (if f.label = .repeated then 1 else 0) +
    Murmur3.hashInt (if f.label = .required then 1 else 0) + Murmur3.hashInt (ordinal f.type)

mutual

/-- A field, and the fields of its message if the field is of the message type. -/
def reachable : MessageField → List MessageField
  | ⟨name, type, label, some message⟩ =>
    ⟨name, type, label, some message⟩ :: if type = "MESSAGE" then allReachable message else []
  | ⟨name, type, label, none⟩ => [⟨name, type, label, none⟩]

/-- Fields, and the fields of their messages. -/
def allReachable : List MessageField → List MessageField
  | [] => []
  | f :: rest => reachable f ++ allReachable rest

end

end MessageField

/-- All fields that nested messages lead to. -/
def Descriptor.reachable (d : Descriptor) : List MessageField :=
  MessageField.allReachable d

/-! ## One reduction -/

namespace MessageField

/-- The sum of the hashes of fields. -/
def hashSum (fields : List MessageField) : Int :=
  (fields.map ownHash).sum

@[simp] theorem hashSum_nil : hashSum [] = 0 := rfl

@[simp] theorem hashSum_cons (f : MessageField) (fields : List MessageField) :
    hashSum (f :: fields) = ownHash f + hashSum fields := by
  rw [hashSum, List.map_cons, List.sum_cons, hashSum]

@[simp] theorem hashSum_append (fields others : List MessageField) :
    hashSum (fields ++ others) = hashSum fields + hashSum others := by
  rw [hashSum, List.map_append, List.sum_append, hashSum, hashSum]

theorem hashSum_perm {fields others : List MessageField} (h : fields.Perm others) :
    hashSum fields = hashSum others :=
  (h.map ownHash).sum_eq

theorem bmod_wrap64_add (a b : Int) :
    Int.bmod (wrap64 a + b) (2 ^ 64) = Int.bmod (a + b) (2 ^ 64) :=
  Int.bmod_add_bmod

mutual

/-- Up to a multiple of 2 ^ 64, a field weighs as much as all that it leads to. -/
theorem bmod_weight (f : MessageField) :
    Int.bmod f.weight (2 ^ 64) = Int.bmod (hashSum f.reachable) (2 ^ 64) := by
  match f with
  | ⟨name, type, label, none⟩ =>
    rw [weight, reachable, hashSum_cons, hashSum_nil, Int.add_zero]
    rfl
  | ⟨name, type, label, some message⟩ =>
    rw [weight, reachable, hashSum_cons]
    split
    · have hnested := bmod_total 0 message
      rw [Int.zero_add] at hnested
      exact Int.add_bmod_eq_add_bmod_left _ hnested
    · rw [hashSum_nil]
      rfl

theorem bmod_total (start : Int) (fields : List MessageField) :
    Int.bmod (total start fields) (2 ^ 64) =
      Int.bmod (start + hashSum (allReachable fields)) (2 ^ 64) := by
  match fields with
  | [] => rw [total, allReachable, hashSum_nil, Int.add_zero]
  | f :: rest =>
    rw [total, allReachable, hashSum_append, bmod_total, bmod_wrap64_add, Int.add_assoc]
    have hfirst := Int.add_bmod_eq_add_bmod_right (hashSum (allReachable rest)) (bmod_weight f)
    exact Int.add_bmod_eq_add_bmod_left start hfirst

end

/-- A sum that starts with a reduced integer ends with one. -/
theorem wrap64_total (start : Int) (fields : List MessageField) :
    wrap64 (total (wrap64 start) fields) = total (wrap64 start) fields := by
  induction fields generalizing start with
  | nil => exact Int.bmod_bmod
  | cons f rest ih => exact ih _

end MessageField

namespace Descriptor

open MessageField (hashSum)

/-- The fingerprint is one sum, reduced once. -/
theorem fingerprint_eq_bmod (d : Descriptor) :
    d.fingerprint = Int.bmod (hashSum d.reachable) (2 ^ 64) := by
  have hreduced : Int.bmod d.fingerprint (2 ^ 64) = d.fingerprint :=
    MessageField.wrap64_total 0 d
  rw [← hreduced, fingerprint, MessageField.bmod_total, Int.zero_add]
  rfl

theorem fingerprint_bounds (d : Descriptor) :
    -2 ^ 63 ≤ d.fingerprint ∧ d.fingerprint < 2 ^ 63 := by
  rw [fingerprint_eq_bmod]
  exact ⟨Int.le_bmod (by decide), Int.bmod_lt (by decide)⟩

theorem reachable_append (d e : Descriptor) : (d ++ e).reachable = d.reachable ++ e.reachable := by
  induction d with
  | nil => rfl
  | cons f d ih =>
    change f.reachable ++ reachable (d ++ e) = f.reachable ++ reachable d ++ e.reachable
    rw [ih, List.append_assoc]

theorem fingerprint_append (d e : Descriptor) :
    (d ++ e).fingerprint = Int.bmod (d.fingerprint + e.fingerprint) (2 ^ 64) := by
  simp only [fingerprint_eq_bmod, reachable_append, MessageField.hashSum_append,
    Int.bmod_add_bmod, Int.add_bmod_bmod]

/-! ## Other orders -/

/-- Whether a descriptor results from another by permuting fields, those of the descriptor itself
or those of messages anywhere inside it. -/
inductive Rearranged : Descriptor → Descriptor → Prop
  | perm {d e : Descriptor} (h : d.Perm e) : Rearranged d e
  | nested {message message' : Descriptor} (before after : Descriptor) (name type : String)
      (label : Label) (h : Rearranged message message') :
      Rearranged (before ++ ⟨name, type, label, some message⟩ :: after)
        (before ++ ⟨name, type, label, some message'⟩ :: after)
  | trans {c d e : Descriptor} (h : Rearranged c d) (h' : Rearranged d e) : Rearranged c e

theorem reachable_perm {d e : Descriptor} (h : d.Perm e) : d.reachable.Perm e.reachable := by
  induction h with
  | nil => exact .nil
  | cons f _ ih => exact ih.append_left f.reachable
  | swap f g d =>
    change (g.reachable ++ (f.reachable ++ reachable d)).Perm
      (f.reachable ++ (g.reachable ++ reachable d))
    exact List.perm_append_comm_assoc ..
  | trans _ _ ih ih' => exact ih.trans ih'

/-- A field of a descriptor, and all that stands around it. -/
theorem reachable_middle (before after : Descriptor) (f : MessageField) :
    reachable (before ++ f :: after) = before.reachable ++ (f.reachable ++ after.reachable) := by
  rw [reachable_append]
  rfl

theorem hashSum_message (message : Descriptor) (name type : String) (label : Label) :
    hashSum (MessageField.reachable ⟨name, type, label, some message⟩) =
      MessageField.ownHash ⟨name, type, label, none⟩ +
        (if type = "MESSAGE" then hashSum message.reachable else 0) := by
  rw [MessageField.reachable, MessageField.hashSum_cons]
  split <;> rfl

/-- The order of fields does not change the sum, even before it is reduced. -/
theorem hashSum_rearranged {d e : Descriptor} (h : d.Rearranged e) :
    hashSum d.reachable = hashSum e.reachable := by
  induction h with
  | perm h => exact MessageField.hashSum_perm (reachable_perm h)
  | nested before after name type label _ ih =>
    simp only [reachable_middle, MessageField.hashSum_append, hashSum_message, ih]
  | trans _ _ ih ih' => exact ih.trans ih'

/-- The fingerprint of a descriptor is a signed 64-bit integer, the sum of the hashes of all its
fields at any depth, reduced once. Descriptors that differ by the order of fields only, at any
depth, have the same fingerprint, and the fingerprint of two lists of fields one after the other is
the reduced sum of their fingerprints. -/
theorem fingerprint_eq_sum (d : Descriptor) :
    (-2 ^ 63 ≤ d.fingerprint ∧ d.fingerprint < 2 ^ 63) ∧
      d.fingerprint = Int.bmod (hashSum d.reachable) (2 ^ 64) ∧
      (∀ e, d.Rearranged e → e.fingerprint = d.fingerprint) ∧
      ∀ e, (d ++ e).fingerprint = Int.bmod (d.fingerprint + e.fingerprint) (2 ^ 64) := by
  refine ⟨fingerprint_bounds d, fingerprint_eq_bmod d, ?_, fingerprint_append d⟩
  intro e h
  rw [fingerprint_eq_bmod, fingerprint_eq_bmod, hashSum_rearranged h]

/-- Two columns and a struct of two, with both orders turned round. -/
theorem fingerprint_eq_sum_turned :
    Rearranged
        [⟨"id", "INT64", .required, none⟩,
          ⟨"place", "MESSAGE", .optional,
            some [⟨"city", "STRING", .optional, none⟩, ⟨"zip", "BYTES", .repeated, none⟩]⟩]
        [⟨"place", "MESSAGE", .optional,
            some [⟨"zip", "BYTES", .repeated, none⟩, ⟨"city", "STRING", .optional, none⟩]⟩,
          ⟨"id", "INT64", .required, none⟩] ∧
      fingerprint
        [⟨"place", "MESSAGE", .optional,
            some [⟨"zip", "BYTES", .repeated, none⟩, ⟨"city", "STRING", .optional, none⟩]⟩,
          ⟨"id", "INT64", .required, none⟩] =
        fingerprint
          [⟨"id", "INT64", .required, none⟩,
            ⟨"place", "MESSAGE", .optional,
              some [⟨"city", "STRING", .optional, none⟩, ⟨"zip", "BYTES", .repeated, none⟩]⟩] := by
  have hturned := Rearranged.trans
    (Rearranged.nested [⟨"id", "INT64", .required, none⟩] [] "place" "MESSAGE" .optional
      (Rearranged.perm (List.Perm.swap ⟨"zip", "BYTES", .repeated, none⟩
        ⟨"city", "STRING", .optional, none⟩ [])))
    (Rearranged.perm (List.Perm.swap _ _ []))
  exact ⟨hturned, (fingerprint_eq_sum _).2.2.1 _ hturned⟩

end Descriptor

end WarehouseRows
