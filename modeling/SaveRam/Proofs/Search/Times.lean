import SaveRam.Proofs.Report.Order
import SaveRam.Proofs.Search.Rounds

/-!
# When matches are found

A match carries the round and the pass in which it was found.  A search goes through
these in their order, so its matches come in the order of their times
(`Search.pairwise_matchesFrom`), and no two of them have the same round and pass.
-/

namespace SaveRam

/-- A match has the round and the pass under which its window was shown. -/
theorem Match.time_of_match? {round pass : Nat} {w : Window} {m : Match}
    (h : Tally.match? round pass w = some m) : m.round = round ∧ m.pass = pass := by
  obtain ⟨jump, -, rfl⟩ := Option.map_eq_some_iff.1 h
  exact ⟨rfl, rfl⟩

/-! ## The matches of a round -/

namespace Machine

variable {round made n : Nat} {m : Machine}

/-- The matches of some passes have the numbers of these passes. -/
theorem time_of_mem_hits {found : Match} (h : found ∈ m.hits round made n) :
    found.round = round ∧ made < found.pass ∧ found.pass ≤ made + n := by
  obtain ⟨j, hj, hfound⟩ := mem_hits.1 h
  obtain ⟨hround, hpass⟩ := Match.time_of_match? hfound
  omega

theorem pairwise_hits (round made n : Nat) (m : Machine) :
    (m.hits round made n).Pairwise fun x y => x.time < y.time := by
  unfold hits
  rw [List.pairwise_filterMap]
  refine (List.pairwise_lt_range' (s := 1) (n := n)).imp ?_
  intro i j hij x hx y hy
  obtain ⟨hxround, hxpass⟩ := Match.time_of_match? hx
  obtain ⟨hyround, hypass⟩ := Match.time_of_match? hy
  exact Match.time_lt_of_pass (by omega) (by omega)

end Machine

/-! ## The matches of a search -/

namespace Search

variable {s : Search} {round n : Nat}

/-- The matches of some rounds are those of each round. -/
theorem mem_matchesFrom {found : Match} :
    found ∈ s.matchesFrom round n ↔ ∃ i < n, found ∈ (s.atRound i).roundHits (round + i) := by
  unfold matchesFrom
  simp only [List.mem_flatMap, List.mem_range]

theorem round_of_mem_roundHits {found : Match} (h : found ∈ s.roundHits round) :
    found.round = round :=
  (Machine.time_of_mem_hits h).1

/-- The matches of a search come in the order of their times. -/
theorem pairwise_matchesFrom (round n : Nat) (s : Search) :
    (s.matchesFrom round n).Pairwise fun x y => x.time < y.time := by
  unfold matchesFrom
  rw [List.pairwise_flatMap]
  constructor
  · intro i _
    exact Machine.pairwise_hits ..
  · refine List.pairwise_lt_range.imp ?_
    intro i j hij x hx y hy
    have hxround := round_of_mem_roundHits hx
    have hyround := round_of_mem_roundHits hy
    exact Match.time_lt_of_round (by omega)

end Search

end SaveRam
