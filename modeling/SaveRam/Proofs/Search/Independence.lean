import SaveRam.Proofs.Pass.Reset
import SaveRam.Proofs.Search.Matches

/-!
# Independent rounds

What one round of a search leaves for the next is the probe's carried nibble.
If the probe's program resets first, the nibble does not matter, and then a
round is a search of its own on the image that the seed has reached.

There are three groups.

* Fewer passes.  A round with a smaller bound makes the first passes of the
  round with the larger one, and finds what these find
  (`Machine.getD_firstReturn?_of_le`, `Machine.filter_pass_hits`).
* One round out of many.  `Search.filter_round_matchesFrom` picks the matches of
  a round out of those of a search.
* Rounds that show the same windows (`Search.roundPasses_eq_min`,
  `Search.map_inRound_roundHits`).  `Search.memory_after_entered` gives such
  rounds when the probe resets first.

`Search.round_of_resetsFirst` puts them together.
-/

namespace SaveRam

/-! ## Fewer passes -/

namespace Machine

/-- With a smaller bound a round ends at the same pass or at the bound. -/
theorem getD_firstReturn?_of_le {bound bound' : Nat} (h : bound ≤ bound') (start : Digest)
    (m : Machine) :
    (m.firstReturn? start bound).getD bound =
      min bound ((m.firstReturn? start bound').getD bound') := by
  cases hlarge : m.firstReturn? start bound' with
  | none =>
    have hno := firstReturn?_eq_none_iff.1 hlarge
    have hsmall : m.firstReturn? start bound = none :=
      firstReturn?_eq_none_iff.2 fun j hj hjb => hno j hj (by omega)
    rw [hsmall, Option.getD_none, Option.getD_none, Nat.min_eq_left h]
  | some n =>
    obtain ⟨hreturn, ⟨hlow, hhigh⟩, hfirst⟩ := firstReturn?_eq_some_iff.1 hlarge
    rw [Option.getD_some]
    by_cases hn : n ≤ bound
    · have hsmall : m.firstReturn? start bound = some n :=
        firstReturn?_eq_some_iff.2 ⟨hreturn, ⟨hlow, hn⟩, hfirst⟩
      rw [hsmall, Option.getD_some, Nat.min_eq_right hn]
    · have hsmall : m.firstReturn? start bound = none :=
        firstReturn?_eq_none_iff.2 fun j hj hjb => hfirst j hj (by omega)
      rw [hsmall, Option.getD_none, Nat.min_eq_left (by omega)]

/-- Passes find what the first of them find and what the others find after
them. -/
theorem hits_add (round made k d : Nat) (m : Machine) :
    m.hits round made (k + d) = m.hits round made k ++ (m.after k).hits round (made + k) d := by
  unfold hits
  rw [← List.range'_append_1, List.filterMap_append, Nat.add_comm 1 k, ← List.map_add_range',
    List.filterMap_map]
  simp only [Function.comp_def, ← after_add, Nat.add_assoc]

/-- The matches of the first passes are those with a small pass number. -/
theorem filter_pass_hits (round made k n : Nat) (m : Machine) :
    (m.hits round made n).filter (fun x => x.pass ≤ made + k) = m.hits round made (min k n) := by
  have hkeep : ∀ n' ≤ k, (m.hits round made n').filter (fun x => x.pass ≤ made + k) =
      m.hits round made n' := by
    intro n' hn'
    rw [List.filter_eq_self]
    intro x hx
    obtain ⟨-, -, hpass⟩ := time_of_mem_hits hx
    exact decide_eq_true (by omega)
  rcases Nat.le_total n k with hle | hle
  · rw [Nat.min_eq_right hle, hkeep n hle]
  · obtain ⟨d, rfl⟩ := Nat.exists_eq_add_of_le hle
    have hdrop :
        ((m.after k).hits round (made + k) d).filter (fun x => x.pass ≤ made + k) = [] := by
      rw [List.filter_eq_nil_iff]
      intro x hx
      obtain ⟨-, hpass, -⟩ := time_of_mem_hits hx
      simp only [decide_eq_true_eq]
      omega
    rw [Nat.min_eq_left hle, hits_add, List.filter_append, hkeep k (Nat.le_refl k), hdrop,
      List.append_nil]

end Machine

namespace Search

/-! ## One round out of many -/

theorem filter_round_roundHits (r round : Nat) (s : Search) :
    (s.roundHits round).filter (fun m => m.round = r) =
      if round = r then s.roundHits round else [] := by
  by_cases h : round = r
  · rw [if_pos h, List.filter_eq_self]
    intro m hm
    exact decide_eq_true ((round_of_mem_roundHits hm).trans h)
  · rw [if_neg h, List.filter_eq_nil_iff]
    intro m hm
    rw [round_of_mem_roundHits hm, decide_eq_true_eq]
    exact h

/-- The matches with the number of a round are those that the round found. -/
theorem filter_round_matchesFrom {i n : Nat} (hi : i < n) (round : Nat) (s : Search) :
    (s.matchesFrom round n).filter (fun m => m.round = round + i) =
      (s.atRound i).roundHits (round + i) := by
  induction n generalizing i round s with
  | zero => omega
  | succ n ih =>
    rw [matchesFrom_succ, List.filter_append, filter_round_roundHits]
    cases i with
    | zero =>
      have hlater : (s.nextRound.matchesFrom (round + 1) n).filter
          (fun m => m.round = round + 0) = [] := by
        rw [List.filter_eq_nil_iff]
        intro m hm
        obtain ⟨j, -, hj⟩ := mem_matchesFrom.1 hm
        have hround := round_of_mem_roundHits hj
        simp only [decide_eq_true_eq]
        omega
      rw [if_pos (Nat.add_zero round).symm, hlater, List.append_nil]
      rfl
    | succ i =>
      have hnumber : round + (i + 1) = round + 1 + i := by omega
      rw [if_neg (by omega), List.nil_append, hnumber, ih (by omega), atRound_succ]

/-! ## Rounds that show the same windows -/

section

variable {s s' : Search} (hbound : s.bounds.passes ≤ s'.bounds.passes)
  (hmemory : ∀ j, (s.entered.after j).memory = (s'.entered.after j).memory)

include hmemory in
theorem window_eq (j : Nat) :
    (s.entered.after j).memory.window = (s'.entered.after j).memory.window :=
  congrArg Memory.window (hmemory j)

include hbound hmemory

/-- The round with the smaller bound ends where the other one ends, or at its
bound. -/
theorem roundPasses_eq_min : s.roundPasses = min s.bounds.passes.toNat s'.roundPasses := by
  have hdigest : s.seed.memory.digest = s'.seed.memory.digest := congrArg Memory.digest (hmemory 0)
  unfold roundPasses return?
  rw [Machine.firstReturn?_congr (window_eq hmemory), hdigest]
  exact Machine.getD_firstReturn?_of_le (UInt32.le_iff_toNat_le.1 hbound) _ _

/-- The round with the smaller bound finds what the other one finds within that
bound. -/
theorem map_inRound_roundHits (round round' : Nat) :
    (s.roundHits round).map (Match.inRound round') =
      (s'.roundHits round').filter fun m => m.pass ≤ s.bounds.passes.toNat := by
  have hfilter := Machine.filter_pass_hits round' 0 s.bounds.passes.toNat s'.roundPasses s'.entered
  rw [Nat.zero_add] at hfilter
  unfold roundHits
  rw [Machine.map_inRound_hits, hfilter, ← roundPasses_eq_min hbound hmemory,
    Machine.hits_congr (window_eq hmemory)]

end

/-- Round `i` of a search finds what a search with a larger bound finds in its
first round, cut off at the smaller bound. -/
theorem map_inRound_matchesFrom {s s' : Search} {i n : Nat} (hi : i < n)
    (hbound : s.bounds.passes ≤ s'.bounds.passes)
    (hmemory : ∀ j, ((s.atRound i).entered.after j).memory = (s'.entered.after j).memory) :
    ((s.matchesFrom 0 n).filter fun m => m.round = i).map (Match.inRound 0) =
      (s'.roundHits 0).filter fun m => m.pass ≤ s.bounds.passes.toNat := by
  have hround := filter_round_matchesFrom hi 0 s
  rw [Nat.zero_add] at hround
  rw [← atRound_bounds i] at hbound
  rw [hround, map_inRound_roundHits hbound hmemory, atRound_bounds]

/-- If the probe resets first, a round goes through the memories of a search
that starts where the seed is by then. -/
theorem memory_after_entered {probe : Program} (hreset : probe.ResetsFirst) (seed : Machine)
    (b c : Bounds) (i j : Nat) :
    (((start seed probe b).atRound i).entered.after j).memory =
      ((start (seed.after i) probe c).entered.after j).memory := by
  have hprogram : ((start seed probe b).atRound i).entered.program = probe :=
    program_atRound i _
  refine Machine.memory_after_eq ?_ hprogram ?_ j
  · rw [hprogram]
    exact hreset
  · show ((start seed probe b).atRound i).seed.memory = (seed.after i).memory
    rw [seed_atRound]
    rfl

/-- If the probe's program resets first, every round of a search is a search of
one round on the image that the seed has reached by then, cut off at the bound
of the search.  The matches of the round are those of the other search within
the bound, in the order of time as well as in the group of every address, and
the passes of the round are as many as the other search made, up to the bound. -/
theorem round_of_resetsFirst {seed : Machine} {probe : Program} {b c : Bounds} {i : Nat}
    (hreset : probe.ResetsFirst) (hseed : ∃ st, (seed.program.pass st).2 = none)
    (hprobe : ∃ st, (probe.pass st).2 = none) (hpasses : b.passes ≤ c.passes)
    (hrounds : c.rounds = 1) (hi : i < b.rounds.toNat) :
    ∃ s t s' t' S P N, (start seed probe b).run = (s, .ok t) ∧
      (start (seed.run i).1 probe c).run = (s', .ok t') ∧ (start seed probe b).Course S P N ∧
      (t.report.chronological.filter fun m => m.round = i).map (Match.inRound 0) =
        t'.report.chronological.filter (fun m => m.pass ≤ b.passes.toNat) ∧
      (∀ a, (((t.report.get? a).getD []).filter fun m => m.round = i).map (Match.inRound 0) =
        ((t'.report.get? a).getD []).filter fun m => m.pass ≤ b.passes.toNat) ∧
      N i = min b.passes.toNat t'.passes := by
  have hseedWf := Program.exists_pass_iff.1 hseed
  have hprobeWf := Program.exists_pass_iff.1 hprobe
  let long := start seed probe b
  let single := start (seed.after i) probe c
  have hlong : long.WellFormed := ⟨hseedWf, hprobeWf⟩
  have hsingle : single.WellFormed := by
    refine ⟨?_, hprobeWf⟩
    show (seed.after i).program.WellFormed
    rw [Machine.after_program]
    exact hseedWf
  have hmemory (j : Nat) :
      ((long.atRound i).entered.after j).memory = (single.entered.after j).memory :=
    memory_after_entered hreset seed b c i j
  let found := long.matchesFrom 0 b.rounds.toNat
  let foundAlone := single.roundHits 0
  have hfound : (found.filter fun m => m.round = i).map (Match.inRound 0) =
      foundAlone.filter fun m => m.pass ≤ b.passes.toNat :=
    map_inRound_matchesFrom hi hpasses hmemory
  have hreport : long.tally.report = Report.empty.recordAll found := rfl
  have hreportAlone : single.tally.report = Report.empty.recordAll foundAlone := by
    rw [tally_of_one_round hrounds]
  rw [Machine.run_of_wellFormed hseedWf]
  refine ⟨_, _, _, _, _, _, _, run_of_wellFormed hlong, run_of_wellFormed hsingle,
    long.course_atRound, ?_, fun a => ?_, ?_⟩
  · have hordered : found.Pairwise fun x y => x.time < y.time := long.pairwise_matchesFrom ..
    have horderedAlone : foundAlone.Pairwise fun x y => x.time < y.time :=
      Machine.pairwise_hits ..
    rw [hreport, hreportAlone, Report.chronological_recordAll hordered,
      Report.chronological_recordAll horderedAlone]
    exact hfound
  · rw [hreport, hreportAlone, Report.getD_get?_recordAll_empty,
      Report.getD_get?_recordAll_empty, List.filter_comm, List.filter_comm _ _ foundAlone,
      ← hfound, List.filter_map]
    rfl
  · have hbound : (long.atRound i).bounds.passes ≤ single.bounds.passes := by
      rw [atRound_bounds]
      exact hpasses
    have hmin := roundPasses_eq_min hbound hmemory
    rw [atRound_bounds] at hmin
    rw [tally_of_one_round hrounds]
    exact hmin

/-- The last of three rounds of a probe that clears the nibble before its
diff. -/
theorem round_of_resetsFirst_diff :
    let seed : Machine := .start (.ofBytes [1, 2]) [⟨2, 0xA7D0, 0⟩, ⟨7, 0xA7D0, 1⟩]
    let probe : Program := [⟨8, 0, 0⟩, ⟨7, 0xA7D0, 0xC2⟩, ⟨3, 0xA7D0, 1⟩]
    let b : Bounds := ⟨3, 2, by decide⟩
    let c : Bounds := ⟨1, 7, by decide⟩
    probe.ResetsFirst ∧
      ∃ s t s' t' S P N, (start seed probe b).run = (s, .ok t) ∧
        (start (seed.run 2).1 probe c).run = (s', .ok t') ∧ (start seed probe b).Course S P N ∧
        (t.report.chronological.filter fun m => m.round = 2).map (Match.inRound 0) =
          t'.report.chronological.filter (fun m => m.pass ≤ 2) ∧
        N 2 = min 2 t'.passes := by
  intro seed probe b c
  have hreset : probe.ResetsFirst := by decide
  have hseed : ∃ st, (seed.program.pass st).2 = none := Program.exists_pass_iff.2 (by decide)
  have hprobe : ∃ st, (probe.pass st).2 = none := Program.exists_pass_iff.2 (by decide)
  obtain ⟨s, t, s', t', S, P, N, hrun, hrun', hcourse, hfound, -, hpasses⟩ :=
    round_of_resetsFirst (b := b) (c := c) (i := 2) hreset hseed hprobe
      (by decide) rfl (by decide)
  exact ⟨hreset, s, t, s', t', S, P, N, hrun, hrun', hcourse, hfound, hpasses⟩

end Search

end SaveRam
