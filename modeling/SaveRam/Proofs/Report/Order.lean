import Mathlib.Data.Prod.Lex
import SaveRam.Proofs.Report.Recorded

/-!
# The order of a report

A report lists its matches by address.  The order in which they were found is
not lost: a match carries its round and its pass, and a search goes through
these in lexicographic order.  `Match.time` is that pair and
`Report.chronological` lists a report by it.  Whatever was recorded in order of
time is read back, match for match (`Report.chronological_recordAll`).
-/

namespace SaveRam

/-- When a match was found: in which round, and after which pass of the round.
Times are ordered lexicographically. -/
def Match.time (m : Match) : ℕ ×ₗ ℕ := toLex (m.round, m.pass)

/-- A match of an earlier round is an earlier match. -/
theorem Match.time_lt_of_round {m n : Match} (h : m.round < n.round) : m.time < n.time :=
  Prod.Lex.toLex_lt_toLex.2 (.inl h)

/-- Inside a round the passes order the matches. -/
theorem Match.time_lt_of_pass {m n : Match} (hround : m.round = n.round)
    (hpass : m.pass < n.pass) : m.time < n.time :=
  Prod.Lex.toLex_lt_toLex.2 (.inr ⟨hround, hpass⟩)

namespace Report

/-- The matches of a report in the order of their times. -/
def chronological (r : Report) : List Match := r.toList.mergeSort fun m n => m.time ≤ n.time

theorem chronological_perm (r : Report) : r.chronological.Perm r.toList :=
  List.mergeSort_perm _ _

theorem pairwise_chronological (r : Report) :
    r.chronological.Pairwise fun m n => m.time ≤ n.time := by
  have htrans (m n o : Match) (hmn : decide (m.time ≤ n.time)) (hno : decide (n.time ≤ o.time)) :
      decide (m.time ≤ o.time) := by
    simp only [decide_eq_true_eq] at hmn hno ⊢
    exact le_trans hmn hno
  have htotal (m n : Match) : decide (m.time ≤ n.time) || decide (n.time ≤ m.time) := by
    simp only [Bool.or_eq_true, decide_eq_true_eq]
    exact le_total m.time n.time
  have hsorted := List.pairwise_mergeSort htrans htotal r.toList
  simp only [decide_eq_true_eq] at hsorted
  exact hsorted

variable {ms : List Match}

/-- Matches of different times stay apart in a report. -/
theorem nodup_time_toList (h : ms.Pairwise fun m n => m.time < n.time) :
    ((empty.recordAll ms).toList.map Match.time).Nodup := by
  have hnodup : (ms.map Match.time).Nodup := by
    rw [List.Nodup, List.pairwise_map]
    exact h.imp ne_of_lt
  exact ((toList_recordAll_empty_perm ms).map Match.time).nodup_iff.2 hnodup

/-- Matches that were recorded in the order of their times are found in that
order again. -/
theorem chronological_recordAll (h : ms.Pairwise fun m n => m.time < n.time) :
    (empty.recordAll ms).chronological = ms := by
  have hperm := (chronological_perm (empty.recordAll ms)).trans (toList_recordAll_empty_perm ms)
  have hnodup : ((empty.recordAll ms).chronological.map Match.time).Nodup :=
    ((chronological_perm (empty.recordAll ms)).map Match.time).nodup_iff.2 (nodup_time_toList h)
  have hsorted : (empty.recordAll ms).chronological.Pairwise fun m n => m.time < n.time := by
    rw [List.Nodup, List.pairwise_map] at hnodup
    refine ((pairwise_chronological _).and hnodup).imp ?_
    intro m n hmn
    exact lt_of_le_of_ne hmn.1 hmn.2
  exact List.Perm.eq_of_pairwise
    (fun m n _ _ hmn hnm => absurd hnm (not_lt_of_gt hmn)) hsorted h hperm

/-- In every group of a report the matches stand in the order in which they were
recorded. -/
theorem pairwise_group (h : ms.Pairwise fun m n => m.time < n.time) {a : Address}
    {group : List Match} (hgroup : (a, group) ∈ (empty.recordAll ms).groups) :
    (∀ m ∈ group, m.address = a) ∧ group.Pairwise fun m n => m.time < n.time := by
  have hfilter := getD_get?_recordAll_empty ms a
  rw [mem_groups_iff.1 hgroup, Option.getD_some] at hfilter
  rw [hfilter]
  refine ⟨fun m hm => ?_, h.filter _⟩
  simpa using (List.mem_filter.1 hm).2

end Report

end SaveRam
