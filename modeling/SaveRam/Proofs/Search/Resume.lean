import SaveRam.Proofs.Search.Matches

/-!
# Runs one after the other

A search can be run again, and it goes on where the last run stopped: between
two runs nothing is kept but the two machines.  So `k` runs of `a` rounds make
the rounds of one run of `k * a` rounds, round `i` of run number `r` being round
`r * a + i` of the one run.

`range_mul_eq_flatMap` splits the rounds into runs, and
`Search.matchesFrom_mul`, `Search.passesOf_mul` and `Search.cyclesOf_mul` follow
from it.  `Search.withBounds` gives a search other bounds: the number of rounds
decides where a run ends and nothing else.  `Search.run_mul_rounds` is the
comparison of the runs.
-/

namespace SaveRam

/-- The numbers below `k * a` come in `k` blocks of `a`. -/
theorem range_mul_eq_flatMap (k a : Nat) :
    List.range (k * a) = (List.range k).flatMap fun r => (List.range a).map (r * a + ·) := by
  induction k with
  | zero => simp
  | succ k ih =>
    rw [Nat.succ_mul, List.range_add, ih, List.range_succ, List.flatMap_append,
      List.flatMap_singleton]

namespace Search

/-! ## Blocks of rounds -/

/-- The matches of a round under a later number. -/
theorem roundHits_add (d round : Nat) (s : Search) :
    s.roundHits (d + round) = (s.roundHits round).map fun m => m.inRound (d + m.round) := by
  unfold roundHits
  rw [← Machine.map_inRound_hits round (d + round)]
  refine List.map_congr_left fun m hm => ?_
  rw [(Machine.time_of_mem_hits hm).1]

/-- The matches of `k` blocks of `a` rounds. -/
theorem matchesFrom_mul (k a : Nat) (s : Search) :
    s.matchesFrom 0 (k * a) = (List.range k).flatMap fun r =>
      ((s.atRound (r * a)).matchesFrom 0 a).map fun m => m.inRound (r * a + m.round) := by
  unfold matchesFrom
  rw [range_mul_eq_flatMap, List.flatMap_assoc]
  refine List.flatMap_congr fun r _ => ?_
  rw [List.flatMap_map, List.map_flatMap]
  simp only [Nat.zero_add, roundHits_add, atRound_add]

theorem passesOf_mul (k a : Nat) (s : Search) :
    s.passesOf (k * a) = ((List.range k).map fun r => (s.atRound (r * a)).passesOf a).sum := by
  unfold passesOf
  rw [range_mul_eq_flatMap, List.map_flatMap, List.flatMap_def, List.sum_flatten, List.map_map]
  simp only [Function.comp_def, List.map_map, atRound_add]

theorem cyclesOf_mul (k a : Nat) (s : Search) :
    s.cyclesOf (k * a) = ((List.range k).map fun r => (s.atRound (r * a)).cyclesOf a).sum := by
  unfold cyclesOf
  rw [range_mul_eq_flatMap, List.countP_flatMap]
  simp only [Function.comp_def, List.countP_map, atRound_add]

/-! ## Other bounds -/

/-- The search with other bounds. -/
def withBounds (b : Bounds) (s : Search) : Search := ⟨s.seed, s.probe, b⟩

section

variable {s : Search} {b : Bounds}

theorem return?_withBounds (h : b.passes = s.bounds.passes) :
    (s.withBounds b).return? = s.return? := by
  unfold return?
  rw [show (s.withBounds b).bounds.passes = s.bounds.passes from h]
  rfl

theorem roundPasses_withBounds (h : b.passes = s.bounds.passes) :
    (s.withBounds b).roundPasses = s.roundPasses := by
  unfold roundPasses
  rw [return?_withBounds h, show (s.withBounds b).bounds.passes = s.bounds.passes from h]

theorem roundHits_withBounds (h : b.passes = s.bounds.passes) (round : Nat) :
    (s.withBounds b).roundHits round = s.roundHits round := by
  unfold roundHits
  rw [roundPasses_withBounds h]
  rfl

theorem nextRound_withBounds (h : b.passes = s.bounds.passes) :
    (s.withBounds b).nextRound = s.nextRound.withBounds b := by
  unfold nextRound
  rw [roundPasses_withBounds h]
  rfl

/-- The rounds of a search depend on the largest number of passes only. -/
theorem atRound_withBounds (h : b.passes = s.bounds.passes) (i : Nat) :
    (s.withBounds b).atRound i = (s.atRound i).withBounds b := by
  induction i generalizing s with
  | zero => rfl
  | succ i ih =>
    rw [atRound_succ, atRound_succ, nextRound_withBounds h]
    exact ih h

/-- The tally of a search with other bounds, in terms of the rounds that it was
made from. -/
theorem tally_withBounds (h : b.passes = s.bounds.passes) :
    (s.withBounds b).tally =
      ⟨Report.empty.recordAll (s.matchesFrom 0 b.rounds.toNat), b.rounds.toNat,
        s.passesOf b.rounds.toNat, s.cyclesOf b.rounds.toNat⟩ := by
  have hpasses (i : Nat) : b.passes = (s.atRound i).bounds.passes := by
    rw [atRound_bounds]
    exact h
  unfold tally matchesFrom passesOf cyclesOf
  simp only [atRound_withBounds h, roundHits_withBounds (hpasses _),
    roundPasses_withBounds (hpasses _), return?_withBounds (hpasses _)]
  rfl

end

/-! ## Runs -/

/-- The search after `k` runs. -/
def afterRuns (k : Nat) (s : Search) : Search := (fun s => s.run.1)^[k] s

/-- Runs that succeed make their rounds one after the other. -/
theorem afterRuns_of_wellFormed {s : Search} (h : s.WellFormed) (k : Nat) :
    s.afterRuns k = s.atRound (k * s.bounds.rounds.toNat) := by
  induction k with
  | zero => rw [Nat.zero_mul]; rfl
  | succ k ih =>
    have hstep : s.afterRuns (k + 1) = (s.afterRuns k).run.1 :=
      Function.iterate_succ_apply' (fun s : Search => s.run.1) k s
    rw [hstep, ih, run_of_wellFormed (h.atRound _), atRound_bounds, ← atRound_add, Nat.succ_mul]

/-- A search that is run `k` times does what one run with `k` times as many
rounds does.  The machines end alike, the counters of the runs add up to those
of the one run, and its report is what one gets by recording what the runs
found, in the order in which they found it and with the rounds of the runs
before added to the round of each match. -/
theorem run_mul_rounds {s : Search} {b : Bounds} {k : Nat} (hpasses : b.passes = s.bounds.passes)
    (hrounds : b.rounds.toNat = k * s.bounds.rounds.toNat)
    (hseed : ∃ st, (s.seed.program.pass st).2 = none)
    (hprobe : ∃ st, (s.probe.program.pass st).2 = none) :
    ∃ (T : Nat → Tally) (s' : Search) (t : Tally),
      (∀ r < k, (s.afterRuns r).run.2 = .ok (T r)) ∧ (s.withBounds b).run = (s', .ok t) ∧
      s'.seed = (s.afterRuns k).seed ∧ s'.probe = (s.afterRuns k).probe ∧
      t.rounds = ((List.range k).map fun r => (T r).rounds).sum ∧
      t.passes = ((List.range k).map fun r => (T r).passes).sum ∧
      t.cycles = ((List.range k).map fun r => (T r).cycles).sum ∧
      t.report = Report.empty.recordAll ((List.range k).flatMap fun r =>
        (T r).report.chronological.map fun m =>
          m.inRound (r * s.bounds.rounds.toNat + m.round)) := by
  have h : s.WellFormed := ⟨Program.exists_pass_iff.1 hseed, Program.exists_pass_iff.1 hprobe⟩
  have hb : (s.withBounds b).WellFormed := h
  have hrun (r : Nat) : (s.afterRuns r).run.2 = .ok (s.afterRuns r).tally := by
    rw [afterRuns_of_wellFormed h, run_of_wellFormed (h.atRound _)]
  have htally (r : Nat) : (s.afterRuns r).tally =
      ⟨Report.empty.recordAll ((s.atRound (r * s.bounds.rounds.toNat)).matchesFrom 0
          s.bounds.rounds.toNat), s.bounds.rounds.toNat,
        (s.atRound (r * s.bounds.rounds.toNat)).passesOf s.bounds.rounds.toNat,
        (s.atRound (r * s.bounds.rounds.toNat)).cyclesOf s.bounds.rounds.toNat⟩ := by
    rw [afterRuns_of_wellFormed h, tally, atRound_bounds]
  have hend : (s.withBounds b).atRound b.rounds.toNat = (s.afterRuns k).withBounds b := by
    rw [atRound_withBounds hpasses, afterRuns_of_wellFormed h, hrounds]
  refine ⟨fun r => (s.afterRuns r).tally, _, _, fun r _ => hrun r, run_of_wellFormed hb, ?_, ?_,
    ?_, ?_, ?_, ?_⟩
  · have hmachine := congrArg Search.seed hend
    exact hmachine
  · have hmachine := congrArg Search.probe hend
    exact hmachine
  all_goals
    rw [tally_withBounds hpasses, hrounds]
    simp only [htally]
  · simp
  · exact passesOf_mul ..
  · exact cyclesOf_mul ..
  · rw [matchesFrom_mul]
    simp only [Report.chronological_recordAll (pairwise_matchesFrom ..)]

/-- Three runs of two rounds of a probe whose nibble goes from round to round. -/
theorem run_mul_rounds_diff :
    let seed : Program := [⟨2, 0xA7D1, 0⟩]
    let probe : Program := [⟨7, 0xA7D0, 0xC2⟩, ⟨3, 0xA7D0, 1⟩]
    let s : Search := .start (.start (.ofBytes [1, 2]) seed) probe ⟨2, 5, by decide⟩
    let b : Bounds := ⟨6, 5, by decide⟩
    ∃ (T : Nat → Tally) (s' : Search) (t : Tally),
      (∀ r < 3, (s.afterRuns r).run.2 = .ok (T r)) ∧ (s.withBounds b).run = (s', .ok t) ∧
      s'.seed = (s.afterRuns 3).seed ∧ s'.probe = (s.afterRuns 3).probe ∧
      t.passes = (T 0).passes + (T 1).passes + (T 2).passes := by
  intro seed probe s b
  have hseed : ∃ st, (seed.pass st).2 = none := Program.exists_pass_iff.2 (by decide)
  have hprobe : ∃ st, (probe.pass st).2 = none := Program.exists_pass_iff.2 (by decide)
  obtain ⟨T, s', t, hruns, hrun, hends, hendp, -, hpasses, -, -⟩ :=
    run_mul_rounds (s := s) (b := b) (k := 3) rfl (by decide) hseed hprobe
  refine ⟨T, s', t, hruns, hrun, hends, hendp, ?_⟩
  simpa [List.range_succ, Nat.add_assoc] using hpasses

end Search

end SaveRam
