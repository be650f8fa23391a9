import Mathlib.Data.List.Basic
import Std.Data.TreeMap.Lemmas
import SaveRam.Report

/-!
# What a report holds

Recording a match touches one group and puts the match at its end.  So the
group of an address is made of the recorded matches with that address, in the
order in which they were recorded, and a report holds what was recorded and
nothing else.
-/

namespace SaveRam

namespace Report

/-! ## Groups -/

@[simp] theorem get?_empty (a : Address) : empty.get? a = none := rfl

theorem get?_record (r : Report) (m : Match) (a : Address) :
    (r.record m).get? a =
      if m.address = a then some ((r.get? a).getD [] ++ [m]) else r.get? a := by
  unfold get? record
  rw [Std.TreeMap.getElem?_alter]
  by_cases h : m.address = a
  · subst h
    rw [if_pos Std.ReflCmp.compare_self, if_pos rfl]
    cases r.byAddress[m.address]? with
    | none => rfl
    | some group => simp
  · rw [if_neg fun hcompare => h (Std.LawfulEqCmp.eq_of_compare hcompare), if_neg h]

/-- The group of an address takes the matches with that address, in order. -/
theorem getD_get?_recordAll (r : Report) (ms : List Match) (a : Address) :
    ((r.recordAll ms).get? a).getD [] =
      (r.get? a).getD [] ++ ms.filter fun m => m.address = a := by
  induction ms generalizing r with
  | nil => simp [recordAll]
  | cons m ms ih =>
    show (((r.record m).recordAll ms).get? a).getD [] = _
    rw [ih, get?_record, List.filter_cons]
    by_cases h : m.address = a <;> simp [h]

/-- In a report that was empty the group of an address is what was recorded
with that address. -/
theorem getD_get?_recordAll_empty (ms : List Match) (a : Address) :
    ((empty.recordAll ms).get? a).getD [] = ms.filter fun m => m.address = a := by
  rw [getD_get?_recordAll, get?_empty]
  rfl

/-- The groups of a report are found under their addresses. -/
theorem mem_groups_iff {r : Report} {a : Address} {ms : List Match} :
    (a, ms) ∈ r.groups ↔ r.get? a = some ms := by
  unfold groups get?
  simp only [List.mem_map, Prod.exists, Prod.mk.injEq, Option.map_eq_some_iff,
    Std.TreeMap.mem_toList_iff_getElem?_eq_some]
  constructor
  · rintro ⟨b, group, hgroup, rfl, rfl⟩
    exact ⟨group, hgroup, rfl⟩
  · rintro ⟨group, hgroup, rfl⟩
    exact ⟨a, group, hgroup, rfl, rfl⟩

/-- Every address has at most one group. -/
theorem nodup_addresses (r : Report) : (r.groups.map Prod.fst).Nodup := by
  unfold groups
  rw [List.map_map, List.Nodup, List.pairwise_map]
  refine r.byAddress.distinct_keys_toList.imp ?_
  intro g h hcompare heq
  have haddress : g.1 = h.1 := heq
  rw [haddress] at hcompare
  exact hcompare Std.ReflCmp.compare_self

/-! ## The whole report -/

/-- The matches of a report, address by address. -/
theorem toList_eq_flatMap (r : Report) :
    r.toList = (r.groups.map Prod.fst).flatMap fun a => (r.get? a).getD [] := by
  rw [List.flatMap_map]
  refine List.flatMap_congr fun group hgroup => ?_
  rw [mem_groups_iff.1 hgroup]
  rfl

/-- Matches are only moved when they are grouped by address. -/
theorem flatMap_filter_perm {addresses : List Address} (hnodup : addresses.Nodup)
    {ms : List Match} (hall : ∀ m ∈ ms, m.address ∈ addresses) :
    (addresses.flatMap fun a => ms.filter fun m => m.address = a).Perm ms := by
  induction addresses generalizing ms with
  | nil =>
    have hnil : ms = [] := List.eq_nil_iff_forall_not_mem.2 fun m hm => by simpa using hall m hm
    rw [hnil]
    exact List.Perm.nil
  | cons a addresses ih =>
    obtain ⟨ha, hnodup⟩ := List.nodup_cons.1 hnodup
    -- The later groups are made of the matches that are not in the first one.
    let others := ms.filter fun m => !decide (m.address = a)
    have hothers : ∀ m ∈ others, m.address ∈ addresses := by
      intro m hm
      have hm' : m ∈ ms ∧ m.address ≠ a := by simpa [others] using hm
      exact (List.mem_cons.1 (hall m hm'.1)).resolve_left hm'.2
    have hlater : (addresses.flatMap fun b => ms.filter fun m => m.address = b) =
        addresses.flatMap fun b => others.filter fun m => m.address = b := by
      refine List.flatMap_congr fun b hb => ?_
      have hne : b ≠ a := fun h => ha (h ▸ hb)
      rw [List.filter_filter]
      refine List.filter_congr fun m _ => ?_
      by_cases hm : m.address = b <;> simp [hm, hne]
    rw [List.flatMap_cons, hlater]
    exact ((ih hnodup hothers).append_left _).trans (List.filter_append_perm _ ms)

/-- A report that was empty holds what was recorded, each match as often as it
was recorded. -/
theorem toList_recordAll_empty_perm (ms : List Match) : (empty.recordAll ms).toList.Perm ms := by
  rw [toList_eq_flatMap]
  simp only [getD_get?_recordAll_empty]
  refine flatMap_filter_perm (nodup_addresses _) fun m hm => ?_
  have hgroup := getD_get?_recordAll_empty ms m.address
  cases hget : (empty.recordAll ms).get? m.address with
  | some group => exact List.mem_map.2 ⟨_, mem_groups_iff.2 hget, rfl⟩
  | none =>
    have hmem : m ∈ ms.filter fun n => n.address = m.address := by simpa using hm
    rw [hget] at hgroup
    rw [← hgroup] at hmem
    cases hmem

/-- A report that was empty holds exactly what was recorded. -/
theorem mem_toList_recordAll_empty {ms : List Match} {m : Match} :
    m ∈ (empty.recordAll ms).toList ↔ m ∈ ms :=
  (toList_recordAll_empty_perm ms).mem_iff

end Report

end SaveRam
