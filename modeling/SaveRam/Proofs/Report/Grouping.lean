import Mathlib.Algebra.GroupWithZero.Nat
import Mathlib.Data.Finset.Card
import SaveRam.Proofs.Report.Recorded

/-!
# Reports are sorted by address

A report that was filled by any calls lists its matches as a stable sort by
address would: addresses ascend, and matches with the same address stand in the
order in which they came.

There are three groups.

* Sorted lists.  `eq_of_pairwise_address` says that a list in the order of
  addresses is known from the matches of each address, so that two stable sorts
  of the same matches are equal.
* The groups of a report.  No group is empty (`Report.get?_recordAll_empty`),
  the addresses ascend (`Report.pairwise_addresses`), and there are as many
  matches as were recorded (`Report.size_recordAll`).
* Calls.  `Report.Addition` is a call that fills a report, and
  `Report.groups_of_calls` describes the report after any calls.
-/

namespace SaveRam

/-! ## Sorted lists -/

section

variable {xs ys : List Match}

theorem address_le_of_mem {x m : Match} (h : (x :: xs).Pairwise fun m n => m.address ≤ n.address)
    (hm : m ∈ x :: xs) : x.address ≤ m.address := by
  rcases List.mem_cons.1 hm with rfl | hm
  · exact UInt16.le_refl _
  · exact List.rel_of_pairwise_cons h hm

/-- Lists in the order of addresses that agree on every address are equal. -/
theorem eq_of_pairwise_address (hxs : xs.Pairwise fun m n => m.address ≤ n.address)
    (hys : ys.Pairwise fun m n => m.address ≤ n.address)
    (h : ∀ a, xs.filter (fun m => m.address = a) = ys.filter fun m => m.address = a) :
    xs = ys := by
  induction xs generalizing ys with
  | nil =>
    cases ys with
    | nil => rfl
    | cons y ys => simpa using h y.address
  | cons x xs ih =>
    cases ys with
    | nil => simpa using h x.address
    | cons y ys =>
      have hmem (m : Match) : m ∈ x :: xs ↔ m ∈ y :: ys := by
        have hgroup : m ∈ (x :: xs).filter (fun n => n.address = m.address) ↔
            m ∈ (y :: ys).filter fun n => n.address = m.address := by rw [h]
        simpa only [List.mem_filter, decide_true, and_true] using hgroup
      -- Each head has an address that is not above the other's.
      have haddress : x.address = y.address :=
        UInt16.le_antisymm
          (address_le_of_mem hxs ((hmem y).2 List.mem_cons_self))
          (address_le_of_mem hys ((hmem x).1 List.mem_cons_self))
      have hhead := h x.address
      rw [List.filter_cons_of_pos (by simp), List.filter_cons_of_pos (by simp [haddress])] at hhead
      obtain ⟨rfl, -⟩ := List.cons.inj hhead
      refine congrArg (x :: ·) (ih hxs.tail hys.tail fun a => ?_)
      have hgroup := h a
      rw [List.filter_cons, List.filter_cons] at hgroup
      split at hgroup
      · exact (List.cons.inj hgroup).2
      · exact hgroup

/-- Moving elements keeps those with a property in order if these are still found
in order. -/
theorem filter_eq_of_perm {α : Type} {xs ys : List α} {p : α → Bool} (hperm : xs.Perm ys)
    (hsub : (ys.filter p).Sublist xs) : xs.filter p = ys.filter p := by
  have hkept := hsub.filter p
  rw [List.filter_filter] at hkept
  simp only [Bool.and_self] at hkept
  exact (hkept.eq_of_length (hperm.filter p).length_eq.symm).symm

/-- A stable sort by address. -/
theorem eq_mergeSort_of_pairwise_address (hperm : xs.Perm ys)
    (hxs : xs.Pairwise fun m n => m.address ≤ n.address)
    (hsub : ∀ a, (ys.filter fun m => m.address = a).Sublist xs) :
    xs = ys.mergeSort fun m n => m.address ≤ n.address := by
  have htrans (m n o : Match) (hmn : decide (m.address ≤ n.address))
      (hno : decide (n.address ≤ o.address)) : decide (m.address ≤ o.address) := by
    simp only [decide_eq_true_eq] at hmn hno ⊢
    exact UInt16.le_trans hmn hno
  have htotal (m n : Match) : decide (m.address ≤ n.address) || decide (n.address ≤ m.address) := by
    simp only [Bool.or_eq_true, decide_eq_true_eq]
    exact UInt16.le_total m.address n.address
  have hsorted := List.pairwise_mergeSort htrans htotal ys
  simp only [decide_eq_true_eq] at hsorted
  refine eq_of_pairwise_address hxs hsorted fun a => ?_
  -- The matches of one address are sorted as they stand.
  have hgroup : (ys.filter fun m => m.address = a).Pairwise
      fun m n => decide (m.address ≤ n.address) := by
    refine List.pairwise_of_forall_mem_list fun m hm n hn => ?_
    simp only [List.mem_filter, decide_eq_true_eq] at hm hn ⊢
    rw [hm.2, hn.2]
    exact UInt16.le_refl a
  rw [filter_eq_of_perm hperm (hsub a), filter_eq_of_perm (List.mergeSort_perm _ _)
    (List.sublist_mergeSort htrans htotal hgroup List.filter_sublist)]

end

namespace Report

/-! ## The groups of a report -/

/-- The addresses of a report ascend. -/
theorem pairwise_addresses (r : Report) : (r.groups.map Prod.fst).Pairwise (· < ·) := by
  unfold groups
  rw [List.map_map, List.pairwise_map]
  refine r.byAddress.ordered_keys_toList.imp ?_
  intro g h hlt
  exact Std.compare_eq_lt.1 hlt

theorem size_recordAll (r : Report) (ms : List Match) :
    (r.recordAll ms).size = r.size + ms.length := by
  induction ms generalizing r with
  | nil => rfl
  | cons m ms ih =>
    show ((r.record m).recordAll ms).size = _
    rw [ih, List.length_cons, Nat.add_comm ms.length, ← Nat.add_assoc]
    rfl

theorem get?_recordAll_ne_nil {r : Report} {a : Address} (h : r.get? a ≠ some [])
    (ms : List Match) : (r.recordAll ms).get? a ≠ some [] := by
  induction ms generalizing r with
  | nil => exact h
  | cons m ms ih =>
    refine ih ?_
    rw [get?_record]
    split
    · simp
    · exact h

variable (ms : List Match)

/-- A report that was empty has a group for every address that was recorded, and
no other ones. -/
theorem get?_recordAll_empty (a : Address) :
    (empty.recordAll ms).get? a =
      if a ∈ ms.map Match.address then some (ms.filter fun m => m.address = a) else none := by
  have hgroup := getD_get?_recordAll_empty ms a
  have hne : (empty.recordAll ms).get? a ≠ some [] := get?_recordAll_ne_nil (by simp) ms
  have hoccurs : a ∈ ms.map Match.address ↔ (ms.filter fun m => m.address = a) ≠ [] := by
    simp [List.filter_eq_nil_iff]
  cases hget : (empty.recordAll ms).get? a with
  | none =>
    rw [hget, Option.getD_none] at hgroup
    rw [if_neg fun ha => hoccurs.1 ha hgroup.symm]
  | some group =>
    rw [hget, Option.getD_some] at hgroup
    rw [hget, hgroup] at hne
    rw [if_pos (hoccurs.2 fun h => hne (congrArg some h)), hgroup]

theorem mem_groups_recordAll_empty {a : Address} {group : List Match} :
    (a, group) ∈ (empty.recordAll ms).groups ↔
      a ∈ ms.map Match.address ∧ group = ms.filter fun m => m.address = a := by
  rw [mem_groups_iff, get?_recordAll_empty, Option.ite_none_right_eq_some, Option.some.injEq,
    eq_comm (b := group)]

/-- The addresses of the groups are those that were recorded. -/
theorem mem_addresses_recordAll_empty {a : Address} :
    a ∈ (empty.recordAll ms).groups.map Prod.fst ↔ a ∈ ms.map Match.address := by
  constructor
  · intro h
    obtain ⟨⟨_, _⟩, hgroup, rfl⟩ := List.mem_map.1 h
    exact ((mem_groups_recordAll_empty ms).1 hgroup).1
  · intro h
    exact List.mem_map.2 ⟨_, (mem_groups_recordAll_empty ms).2 ⟨h, rfl⟩, rfl⟩

/-- The matches of a report are its groups put together, in the order of the
addresses. -/
theorem pairwise_address_toList :
    (empty.recordAll ms).toList.Pairwise fun m n => m.address ≤ n.address := by
  rw [toList_eq_flatMap]
  simp only [getD_get?_recordAll_empty]
  rw [List.pairwise_flatMap]
  constructor
  · intro a _
    refine List.pairwise_of_forall_mem_list fun m hm n hn => ?_
    simp only [List.mem_filter, decide_eq_true_eq] at hm hn
    rw [hm.2, hn.2]
    exact UInt16.le_refl a
  · refine (pairwise_addresses (empty.recordAll ms)).imp ?_
    intro a b hab m hm n hn
    simp only [List.mem_filter, decide_eq_true_eq] at hm hn
    rw [hm.2, hn.2]
    exact UInt16.le_of_lt hab

/-- A report lists what was recorded, stably sorted by address. -/
theorem toList_recordAll_empty :
    (empty.recordAll ms).toList = ms.mergeSort fun m n => m.address ≤ n.address := by
  refine eq_mergeSort_of_pairwise_address (toList_recordAll_empty_perm ms)
    (pairwise_address_toList ms) fun a => ?_
  by_cases ha : a ∈ ms.map Match.address
  · exact List.sublist_flatten_of_mem
      (List.mem_map.2 ⟨_, (mem_groups_recordAll_empty ms).2 ⟨ha, rfl⟩, rfl⟩)
  · have hnone : (ms.filter fun m => m.address = a) = [] := by
      rw [List.filter_eq_nil_iff]
      intro m hm
      simp only [decide_eq_true_eq]
      exact fun h => ha (List.mem_map.2 ⟨m, hm, h⟩)
    rw [hnone]
    exact List.nil_sublist _

theorem addressCount_eq_length (r : Report) : r.addressCount = r.groups.length := by
  rw [addressCount, groups, List.length_map, Std.TreeMap.length_toList]

/-- The different addresses that were recorded are counted. -/
theorem addressCount_recordAll_empty :
    (empty.recordAll ms).addressCount = (ms.map Match.address).toFinset.card := by
  have hset : (ms.map Match.address).toFinset =
      ((empty.recordAll ms).groups.map Prod.fst).toFinset := by
    ext a
    simp only [List.mem_toFinset, mem_addresses_recordAll_empty]
  rw [hset, List.toFinset_card_of_nodup (nodup_addresses _), List.length_map,
    addressCount_eq_length]

/-- Every match stands in one group. -/
theorem size_eq_sum_length :
    (empty.recordAll ms).size = ((empty.recordAll ms).groups.map fun g => g.2.length).sum := by
  have hlength := (toList_recordAll_empty_perm ms).length_eq
  rw [toList, List.length_flatMap] at hlength
  rw [hlength, size_recordAll]
  exact Nat.zero_add _

/-- There are no more addresses than matches, and no more than sixteen bits
distinguish. -/
theorem addressCount_le :
    (empty.recordAll ms).addressCount ≤ min (empty.recordAll ms).size 0x10000 := by
  have hmatches := List.toFinset_card_le (ms.map Match.address)
  have hwords : (ms.map Match.address).toFinset.card ≤ (Finset.range 0x10000).card :=
    Finset.card_le_card_of_injOn UInt16.toNat
      (fun a _ => Finset.mem_coe.2 (Finset.mem_range.2 a.toNat_lt))
      fun _ _ _ _ => UInt16.toNat_inj.1
  rw [List.length_map] at hmatches
  rw [Finset.card_range] at hwords
  rw [addressCount_recordAll_empty, size_recordAll]
  exact Nat.le_min.2 ⟨Nat.le_trans hmatches (Nat.le_add_left ..), hwords⟩

/-! ## Calls -/

/-- A call that fills a report. -/
inductive Addition where
  | record (m : Match)
  | recordAll (ms : List Match)

/-- The matches that a call adds, in order. -/
def Addition.added : Addition → List Match
  | .record m => [m]
  | .recordAll ms => ms

/-- The report after a call. -/
def Addition.apply (r : Report) : Addition → Report
  | .record m => r.record m
  | .recordAll ms => r.recordAll ms

theorem foldl_apply (calls : List Addition) (r : Report) :
    calls.foldl Addition.apply r = r.recordAll (calls.flatMap Addition.added) := by
  induction calls generalizing r with
  | nil => rfl
  | cons call calls ih =>
    rw [List.foldl_cons, ih, List.flatMap_cons, recordAll_append]
    cases call <;> rfl

/-- The report after any calls.  Its matches are those that the calls added,
stably sorted by address.  Its groups have ascending addresses; each holds the
matches with its address in the order in which they were added, and every
address that was added has one.  The report counts its matches and addresses. -/
theorem groups_of_calls (calls : List Addition) :
    let ms := calls.flatMap Addition.added
    let r := calls.foldl Addition.apply empty
    (r.toList = ms.mergeSort (fun m n => m.address ≤ n.address) ∧ r.toList.Perm ms) ∧
    ((r.groups.map Prod.fst).Pairwise (· < ·) ∧
      (∀ a group, (a, group) ∈ r.groups →
        group ≠ [] ∧ group = ms.filter fun m => m.address = a) ∧
      r.groups.flatMap Prod.snd = r.toList) ∧
    (∀ a, r.get? a =
      if a ∈ ms.map Match.address then some (ms.filter fun m => m.address = a) else none) ∧
    r.size = ms.length ∧ (r.isEmpty ↔ ms.length = 0) ∧
    r.addressCount = (ms.map Match.address).toFinset.card := by
  intro ms r
  have hr : r = empty.recordAll ms := foldl_apply calls empty
  have hsize : r.size = ms.length := by
    rw [hr, size_recordAll]
    exact Nat.zero_add _
  refine ⟨⟨?_, ?_⟩, ⟨r.pairwise_addresses, fun a group hgroup => ?_, rfl⟩, fun a => ?_, hsize, ?_,
    ?_⟩
  · rw [hr, toList_recordAll_empty]
  · rw [hr]
    exact toList_recordAll_empty_perm ms
  · rw [hr, mem_groups_recordAll_empty] at hgroup
    obtain ⟨ha, rfl⟩ := hgroup
    obtain ⟨m, hm, rfl⟩ := List.mem_map.1 ha
    exact ⟨List.ne_nil_of_mem (List.mem_filter.2 ⟨hm, decide_eq_true rfl⟩), rfl⟩
  · rw [hr, get?_recordAll_empty]
  · rw [isEmpty, hsize, beq_iff_eq]
  · rw [hr, addressCount_recordAll_empty]

end Report

end SaveRam
