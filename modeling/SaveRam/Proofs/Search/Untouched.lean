import SaveRam.Proofs.Pass.Untouched
import SaveRam.Proofs.Search.FirstReturn
import SaveRam.Proofs.Search.Footprint
import SaveRam.Proofs.Search.Independence

/-!
# Probes that leave the digested bytes alone

The digest is computed on the first ten bytes of the window.  A probe that writes
none of them shows the digest of its image after every pass
(`Search.digest_after_entered`), so every round is over after its first pass.  The
probe may still write the bytes behind them: a jump is looked for among the first
fourteen, and its address can reach up to the sixteenth.

What a round of one pass adds to the report is the jump of one window
(`Search.filter_round_report`), and `Search.run_of_leavesAlone` collects what a run
comes to.
-/

namespace SaveRam

/-- A window gives a match exactly when one of its first fourteen bytes is the code
of a jump. -/
theorem Tally.exists_match?_iff (round pass : Nat) (w : Window) :
    (∃ m, match? round pass w = some m) ↔
      ∃ k, ∃ hk : k < 14, w[k] = 0xD2 ∨ w[k] = 0xC3 := by
  rw [← Option.isSome_iff_exists, match?, Option.isSome_map, Window.jump?, Option.isSome_map,
    List.find?_isSome]
  constructor
  · rintro ⟨i, -, hcode⟩
    exact ⟨i.val, i.isLt, Window.isJump_iff.1 hcode⟩
  · rintro ⟨k, hk, hcode⟩
    exact ⟨⟨k, hk⟩, List.mem_finRange _, Window.isJump_iff.2 hcode⟩

namespace Search

variable {s : Search}

/-! ## Rounds -/

/-- The digest of the image stays through all passes of a round. -/
theorem digest_after_entered (h : s.probe.program.LeavesAlone {a | a.Digested}) (j : Nat) :
    (s.entered.after j).memory.digest = s.seed.memory.digest :=
  (Machine.agreeOn_after (m := s.entered) h j).digest fun _ ha => ha

theorem return?_of_leavesAlone (h : s.probe.program.LeavesAlone {a | a.Digested}) (i : Nat) :
    (s.atRound i).return? = some 1 := by
  rw [← program_atRound i s] at h
  exact return?_eq_one_iff.2 (digest_after_entered h 1)

/-- A round of one pass adds the match of the window that this pass leaves. -/
theorem roundHits_of_first_return (h : s.return? = some 1) (round : Nat) :
    s.roundHits round = (Tally.match? round 1 (s.entered.after 1).memory.window).toList := by
  rw [roundHits, roundPasses_of_return h, Machine.hits_succ, Machine.hits_zero, List.append_nil]
  rfl

/-- The matches of a round in the report of a search whose rounds make one pass. -/
theorem filter_round_report (h : ∀ i, (s.atRound i).return? = some 1) {i : Nat}
    (hi : i < s.bounds.rounds.toNat) :
    s.tally.report.toList.filter (fun m => m.round = i) =
      (Tally.match? i 1 ((s.atRound i).entered.after 1).memory.window).toList := by
  have hperm : (s.tally.report.toList.filter fun m => m.round = i).Perm
      ((s.matchesFrom 0 s.bounds.rounds.toNat).filter fun m => m.round = i) :=
    (Report.toList_recordAll_empty_perm _).filter _
  have hround := filter_round_matchesFrom hi 0 s
  rw [Nat.zero_add, roundHits_of_first_return (h i)] at hround
  rw [hround] at hperm
  -- There is one match at most, so the order does not matter.
  cases hmatch : Tally.match? i 1 ((s.atRound i).entered.after 1).memory.window with
  | none =>
    rw [hmatch] at hperm
    exact hperm.eq_nil
  | some m =>
    rw [hmatch] at hperm
    exact List.perm_singleton.1 hperm

/-! ## All rounds -/

/-- A search whose probe writes none of the digested bytes makes one pass in every
round and ends the round with it.  All matches have pass number one.  Those of a
round are what the window after this pass gives: one match if a byte among the first
fourteen is the code of a jump, and none otherwise. -/
theorem run_of_leavesAlone (hleaves : s.probe.program.LeavesAlone {a | a.Digested})
    (hprobe : s.probe.pass.2 = none) (hseed : (s.seed.run s.bounds.rounds.toNat).2 = none) :
    ∃ s' t S P N, s.run = (s', .ok t) ∧ s.Course S P N ∧
      t.rounds = s.bounds.rounds.toNat ∧ t.passes = s.bounds.rounds.toNat ∧
      t.cycles = s.bounds.rounds.toNat ∧ (∀ m ∈ t.report.toList, m.pass = 1) ∧
      ∀ i < s.bounds.rounds.toNat, N i = 1 ∧
        t.report.toList.filter (fun m => m.round = i) =
          (Tally.match? i 1 (P i 1).memory.window).toList ∧
        ((∃ m ∈ t.report.toList, m.round = i) ↔
          ∃ k, ∃ hk : k < 14,
            (P i 1).memory.window[k] = 0xD2 ∨ (P i 1).memory.window[k] = 0xC3) := by
  have hwf : s.probe.program.WellFormed := by
    rw [Machine.pass_eq_next] at hprobe
    exact Program.fault?_eq_none_iff.1 hprobe
  have hrun := run_of_seed_run hwf hseed
  have hreturn := return?_of_leavesAlone hleaves
  have hpasses (i : Nat) : (s.atRound i).roundPasses = 1 := roundPasses_of_return (hreturn i)
  obtain ⟨hsum, hcycles⟩ := counts_of_first_returns hreturn s.bounds.rounds.toNat
  refine ⟨_, _, _, _, _, hrun, s.course_atRound, rfl, hsum, hcycles, fun m hm => ?_,
    fun i hi => ⟨hpasses i, filter_round_report hreturn hi, ?_⟩⟩
  · obtain ⟨i, -, j, ⟨hlow, hhigh⟩, hmatch⟩ := (s.course_atRound.mem_report hrun).1 hm
    rw [hpasses i] at hhigh
    have hpass := (Match.time_of_match? hmatch).2
    omega
  · rw [← Tally.exists_match?_iff i 1]
    refine exists_congr fun m => ?_
    rw [← Option.mem_toList, ← filter_round_report hreturn hi, List.mem_filter, decide_eq_true_eq]

/-- A probe that puts a jump behind the digested bytes and carries a nibble from one
round to the next, over a seed that changes the digest. -/
theorem run_of_leavesAlone_behind :
    let s : Search := .start (.start .blank [⟨1, 0xA7D9, 0x3C⟩, ⟨3, 0xA7D0, 0⟩])
      [⟨1, 0xA7DA, 0xC3⟩, ⟨3, 0xA7DF, 1⟩, ⟨6, 0xA000, 0xA7D0⟩] ⟨2, 5, by decide⟩
    s.probe.program.LeavesAlone {a | a.Digested} ∧ s.probe.pass.2 = none ∧
      (s.seed.run 2).2 = none ∧
      ∃ s' t S P N, s.run = (s', .ok t) ∧ s.Course S P N ∧ t.passes = 2 ∧ t.cycles = 2 ∧
        ∀ i < 2, N i = 1 ∧
          t.report.toList.filter (fun m => m.round = i) =
            (Tally.match? i 1 (P i 1).memory.window).toList := by
  intro s
  have hleaves : s.probe.program.LeavesAlone {a | a.Digested} := by
    simp only [Program.LeavesAlone, s, start, Machine.withProgram, List.forall_mem_cons,
      List.not_mem_nil, false_implies, implies_true, and_true]
    refine ⟨?_, ?_, ?_⟩ <;> rintro i ⟨⟩ a ⟨⟩ <;> show ¬ Address.Digested _ <;> decide
  have hprobe : s.probe.pass.2 = none := by
    rw [Machine.pass_eq_next]
    exact Program.fault?_eq_none_iff.2 (by decide)
  have hseed : (s.seed.run 2).2 = none := Machine.run_eq_none_iff.2 (.inr (by decide))
  obtain ⟨s', t, S, P, N, hrun, hcourse, -, hpasses, hcycles, -, hrounds⟩ :=
    run_of_leavesAlone hleaves hprobe hseed
  refine ⟨hleaves, hprobe, hseed, s', t, S, P, N, hrun, hcourse, hpasses, hcycles,
    fun i hi => ?_⟩
  obtain ⟨hone, hfilter, -⟩ := hrounds i hi
  exact ⟨hone, hfilter⟩

end Search

end SaveRam
