import WarehouseRows.Value.Assignment

/-!
# Members by name

Storing a member puts it under its name and leaves the members of all other names as they
are, wherever the order of the members places it. A record that is assembled from members
with distinct names therefore holds each of them, and no others.
-/

namespace WarehouseRows

namespace Members

variable {α : Type}

theorem get?_append (a b : Members α) (name : String) :
    get? (a ++ b) name = (get? a name).or (get? b name) :=
  List.lookup_append

theorem get?_cons (n : String) (v : α) (members : Members α) (m : String) :
    get? ((n, v) :: members) m = if m = n then some v else get? members m := by
  rw [get?, List.lookup_cons]
  by_cases h : m = n
  · simp [h]
  · have hbeq : (m == n) = false := beq_eq_false_iff_ne.mpr h
    simp only [hbeq, h, if_false]
    rfl

theorem contains_iff {members : Members α} {name : String} :
    contains members name = true ↔ name ∈ names members := by
  simp only [contains, names, List.any_eq_true, beq_iff_eq, List.mem_map]

theorem get?_eq_none {members : Members α} {name : String} (h : name ∉ names members) :
    get? members name = none := by
  rw [get?, List.lookup_eq_none_iff]
  intro m hm
  refine bne_iff_ne.mpr ?_
  rintro rfl
  exact h (List.mem_map_of_mem hm)

theorem exists_get? {members : Members α} {name : String} (h : name ∈ names members) :
    ∃ v, get? members name = some v := by
  cases hget : get? members name with
  | some v => exact ⟨v, rfl⟩
  | none =>
    obtain ⟨m, hm, rfl⟩ := List.mem_map.mp h
    have hne := List.lookup_eq_none_iff.mp hget m hm
    simp at hne

/-! ## Storing one member -/

theorem get?_replace (members : Members α) (n : String) (v : α) (m : String) :
    get? (replace members n v) m = (get? members m).map fun w => if m = n then v else w := by
  induction members with
  | nil => rfl
  | cons p members ih =>
    obtain ⟨k, w⟩ := p
    rw [replace, List.map_cons, ← replace, get?_cons]
    by_cases hk : k = n
    · subst hk
      rw [if_pos rfl, get?_cons, ih]
      by_cases hm : m = k
      · simp [hm]
      · simp [hm]
    · rw [if_neg hk, get?_cons, ih]
      by_cases hm : m = k
      · simp [hm, hk]
      · simp [hm]

/-- A stored member is found under its name, and no other member is lost or changed. -/
theorem get?_insert (members : Members α) (n : String) (v : α) (m : String) :
    get? (insert members n v) m = if m = n then some v else get? members m := by
  by_cases hin : n ∈ names members
  · rw [insert, if_pos (contains_iff.mpr hin), get?_replace]
    by_cases hm : m = n
    · obtain ⟨w, hw⟩ := exists_get? hin
      simp [hm, hw]
    · simp [hm]
  · have hnone := get?_eq_none hin
    rw [insert, if_neg (fun h => hin (contains_iff.mp h))]
    split
    · rename_i i _
      rw [get?_append, get?_cons]
      have hparts : get? members m =
          (get? (members.takeWhile (precedes i)) m).or
            (get? (members.dropWhile (precedes i)) m) := by
        rw [← get?_append, List.takeWhile_append_dropWhile]
      by_cases hm : m = n
      · subst hm
        rw [hparts, Option.or_eq_none_iff] at hnone
        simp [hnone.1]
      · simp only [hm, if_false]
        exact hparts.symm
    · rw [get?_append, get?_cons]
      by_cases hm : m = n
      · simp [hm, hnone]
      · simp only [hm, if_false]
        exact Option.or_none

/-- A new name comes to the names that are there. -/
theorem names_insert_perm {members : Members α} {n : String} (v : α) (h : n ∉ names members) :
    (names (insert members n v)).Perm (n :: names members) := by
  rw [insert, if_neg (fun hc => h (contains_iff.mp hc))]
  split
  · rename_i i _
    have hparts : names members =
        names (members.takeWhile (precedes i)) ++ names (members.dropWhile (precedes i)) := by
      simp only [names]
      rw [← List.map_append, List.takeWhile_append_dropWhile]
    rw [hparts]
    simp only [names, List.map_append, List.map_cons]
    exact List.perm_middle
  · simp only [names, List.map_append, List.map_cons, List.map_nil]
    exact List.perm_append_singleton n _

/-! ## Storing one member after another -/

/-- The members after storing pairs one after another. -/
def insertAll (members : Members α) (pairs : List (String × α)) : Members α :=
  pairs.foldl (fun members p => members.insert p.1 p.2) members

/-- Storing leaves a name alone that is not among the stored ones. -/
theorem get?_insertAll_of_not_mem {pairs : List (String × α)} {m : String}
    (h : m ∉ pairs.map Prod.fst) (members : Members α) :
    get? (insertAll members pairs) m = get? members m := by
  induction pairs generalizing members with
  | nil => rfl
  | cons p pairs ih =>
    rw [List.map_cons, List.mem_cons, not_or] at h
    rw [insertAll, List.foldl_cons, ← insertAll, ih h.2, get?_insert, if_neg h.1]

theorem get?_insertAll {pairs : List (String × α)} {n : String} {v : α}
    (h : (pairs.map Prod.fst).Nodup) (hmem : (n, v) ∈ pairs) (members : Members α) :
    get? (insertAll members pairs) n = some v := by
  induction pairs generalizing members with
  | nil => exact absurd hmem List.not_mem_nil
  | cons p pairs ih =>
    rw [List.map_cons, List.nodup_cons] at h
    rw [insertAll, List.foldl_cons, ← insertAll]
    rcases List.mem_cons.mp hmem with rfl | hmem
    · rw [get?_insertAll_of_not_mem h.1, get?_insert, if_pos rfl]
    · exact ih h.2 hmem _

/-- The names are those of the members, if these are distinct. -/
theorem names_insertAll_perm {pairs : List (String × α)} {members : Members α}
    (h : (names members ++ pairs.map Prod.fst).Nodup) :
    (names (insertAll members pairs)).Perm (names members ++ pairs.map Prod.fst) := by
  induction pairs generalizing members with
  | nil => simp [insertAll]
  | cons p pairs ih =>
    have hnew : p.1 ∉ names members := by
      intro hin
      exact (List.nodup_append.mp h).2.2 p.1 hin p.1 List.mem_cons_self rfl
    have hfront : (names (insert members p.1 p.2) ++ pairs.map Prod.fst).Perm
        (names members ++ (p :: pairs).map Prod.fst) :=
      ((names_insert_perm p.2 hnew).append_right _).trans List.perm_middle.symm
    exact (ih (hfront.nodup_iff.mpr h)).trans hfront

theorem names_ofPairs_perm {pairs : List (String × α)} (h : (pairs.map Prod.fst).Nodup) :
    (names (ofPairs pairs)).Perm (pairs.map Prod.fst) :=
  @names_insertAll_perm α pairs [] h

/-- Pairs with new names that are no array indices come behind the members, in order. -/
theorem insertAll_eq_append {members pairs : List (String × α)}
    (h : (names members ++ names pairs).Nodup) (hplain : ∀ n ∈ names pairs, arrayIndex? n = none) :
    insertAll members pairs = members ++ pairs := by
  induction pairs generalizing members with
  | nil => simp [insertAll]
  | cons p pairs ih =>
    have hnew : p.1 ∉ names members := by
      intro hin
      exact (List.nodup_append.mp h).2.2 p.1 hin p.1 List.mem_cons_self rfl
    have hinsert : insert members p.1 p.2 = members ++ [p] := by
      rw [insert, if_neg (fun hc => hnew (contains_iff.mp hc)), hplain p.1 List.mem_cons_self]
    have hnodup : (names (members ++ [p]) ++ names pairs).Nodup := by
      simpa [names] using h
    rw [insertAll, List.foldl_cons, ← insertAll, hinsert,
      ih hnodup fun n hn => hplain n (List.mem_cons_of_mem _ hn), List.append_assoc]
    rfl

/-- Pairs whose names are among distinct ones, in their order, are members as they stand, if none
of the names is an array index. -/
theorem ofPairs_eq_self {pairs : List (String × α)} {known : List String}
    (h : (names pairs).Sublist known) (hknown : known.Nodup)
    (hplain : ∀ n ∈ known, arrayIndex? n = none) : ofPairs pairs = pairs :=
  insertAll_eq_append (h.nodup hknown) fun n hn => hplain n (h.subset hn)

end Members

/-! ## Assembled records -/

/-- Members none of which has the reserved name give a record of them. -/
theorem Value.ofAssignments_eq {pairs : List (String × Value)}
    (h : Members.reservedName ∉ pairs.map Prod.fst) :
    Value.ofAssignments pairs = .record (Members.ofPairs pairs) := by
  have hstep (members : Members Value) :
      pairs.foldl (fun (target : Value) p => target.assign p.1 p.2) (.record members) =
        .record (Members.insertAll members pairs) := by
    induction pairs generalizing members with
    | nil => rfl
    | cons p pairs ih =>
      rw [List.map_cons, List.mem_cons, not_or] at h
      have hassign : (Value.record members).assign p.1 p.2 =
          .record (Members.insert members p.1 p.2) := by
        have hname : ¬ (p.1 = Members.reservedName ∧ (Value.record members).isRooted) :=
          fun hp => h.1 hp.1.symm
        have hbytes : ¬ (Value.record members).isBeyondBytes p.1 = true := Bool.false_ne_true
        have htrace : ¬ (p.1 = traceName ∧ (Value.record members).hasErrorTrace = true) :=
          fun hp => Bool.false_ne_true hp.2
        rw [Value.assign, if_neg hname, if_neg hbytes, if_neg htrace]
        rfl
      rw [List.foldl_cons, hassign, ih h.2]
      rfl
  exact hstep []

/-- What a record holds under a name, it answers to the name. -/
theorem Value.fieldOf_record {members : Members Value} {name : String} {v : Value}
    (h : Members.get? members name = some v) : (Value.record members).fieldOf name = .ok v := by
  have hheld : (Value.record members).held? name = some v := by
    simp only [Value.held?, Value.ownMembers, h]
  simp only [Value.fieldOf, Value.answer?, hheld]
  rfl

end WarehouseRows
