import SaveRam.Proofs.Search.Failure
import SaveRam.Proofs.Search.Times

/-!
# The course of a search

`Search.Course` describes a search by equations and mentions no loop: the seed
`S i` at the start of round `i`, the probe `P i j` after `j` passes of that
round, and the number `N i` of probe passes that the round makes.  The seed
moves by one pass a round.  The probe starts a round on the image of the seed
and with the nibble that the round before left.  A round makes passes up to the
first one that brings the digest of the image back, or as many as the bounds
allow.

`Search.course_atRound` reads the course off `Search.atRound`, and
`Search.run_course` is the result: a run that succeeds records the jumps of all
windows of the course in order, has them in its report as they were recorded, and
counts its rounds, passes and returns.  The equations have no other solution
(`Search.Course.unique`), so whatever solves them tells what the report of a run
holds (`Search.Course.mem_report`).
-/

namespace SaveRam

/-! ## The pass that closes a round -/

namespace Machine

/-- The first return is the least pass that returns. -/
theorem firstReturn?_eq_some_iff {start : Digest} {bound n : Nat} {m : Machine} :
    m.firstReturn? start bound = some n ↔
      (m.after n).memory.digest = start ∧ (1 ≤ n ∧ n ≤ bound) ∧
        ∀ j, 1 ≤ j → j < n → (m.after j).memory.digest ≠ start := by
  unfold firstReturn?
  rw [List.find?_range'_eq_some, List.mem_range'_1, Nat.add_comm 1, Nat.lt_succ_iff]
  simp

theorem firstReturn?_eq_none_iff {start : Digest} {bound : Nat} {m : Machine} :
    m.firstReturn? start bound = none ↔
      ∀ j, 1 ≤ j → j ≤ bound → (m.after j).memory.digest ≠ start := by
  unfold firstReturn?
  rw [List.find?_eq_none]
  simp only [List.mem_range'_1, Nat.add_comm 1, Nat.lt_succ_iff, beq_iff_eq, and_imp, ne_eq]

end Machine

namespace Search

/-- A round makes at least one pass and stays within the bounds. -/
theorem roundPasses_bounds (s : Search) :
    1 ≤ s.roundPasses ∧ s.roundPasses ≤ s.bounds.passes.toNat := by
  unfold roundPasses
  cases h : s.return? with
  | none => exact ⟨Nat.one_le_iff_ne_zero.2 (passes_ne_zero s.bounds), Nat.le_refl _⟩
  | some n => exact (Machine.firstReturn?_eq_some_iff.1 h).2.1

/-- No pass before the last one of a round returns. -/
theorem digest_ne_of_lt_roundPasses {s : Search} {j : Nat} (hj : 1 ≤ j)
    (hlt : j < s.roundPasses) : (s.entered.after j).memory.digest ≠ s.seed.memory.digest := by
  unfold roundPasses at hlt
  cases h : s.return? with
  | none =>
    rw [h] at hlt
    exact Machine.firstReturn?_eq_none_iff.1 h j hj (Nat.le_of_lt hlt)
  | some n =>
    rw [h] at hlt
    exact (Machine.firstReturn?_eq_some_iff.1 h).2.2 j hj hlt

/-- A round ends early exactly when its last pass returns. -/
theorem isSome_return?_iff {s : Search} :
    s.return?.isSome ↔
      (s.entered.after s.roundPasses).memory.digest = s.seed.memory.digest := by
  unfold roundPasses
  cases h : s.return? with
  | none =>
    have hlast := Machine.firstReturn?_eq_none_iff.1 h s.bounds.passes.toNat
      (Nat.one_le_iff_ne_zero.2 (passes_ne_zero s.bounds)) (Nat.le_refl _)
    constructor
    · intro h
      cases h
    · intro h
      exact absurd h hlast
  | some n => exact ⟨fun _ => (Machine.firstReturn?_eq_some_iff.1 h).1, fun _ => rfl⟩

theorem atRound_succ' (i : Nat) (s : Search) : s.atRound (i + 1) = (s.atRound i).nextRound :=
  Function.iterate_succ_apply' nextRound i s

theorem atRound_bounds (i : Nat) (s : Search) : (s.atRound i).bounds = s.bounds := by
  rw [← eq_atRound]

/-! ## The equations of a search -/

/-- The seeds `S`, the probes `P` and the pass counts `N` of the rounds of a
search. -/
structure Course (s : Search) (S : Nat → Machine) (P : Nat → Nat → Machine) (N : Nat → Nat) :
    Prop where
  seed_zero : S 0 = s.seed
  seed_succ : ∀ i, S (i + 1) = (S i).pass.1
  enter_zero : P 0 0 = s.probe.withMemory (S 0).memory
  enter_succ : ∀ i, P (i + 1) 0 = (P i (N i)).withMemory (S (i + 1)).memory
  probe_succ : ∀ i j, P i (j + 1) = (P i j).pass.1
  bounds : ∀ i, 1 ≤ N i ∧ N i ≤ s.bounds.passes.toNat
  no_return : ∀ i j, 1 ≤ j → j < N i → (P i j).memory.digest ≠ (S i).memory.digest
  return_or_last : ∀ i, (P i (N i)).memory.digest = (S i).memory.digest ∨
    N i = s.bounds.passes.toNat

/-- Every search has a course. -/
theorem course_atRound (s : Search) :
    s.Course (fun i => (s.atRound i).seed) (fun i j => (s.atRound i).entered.after j)
      (fun i => (s.atRound i).roundPasses) where
  seed_zero := rfl
  seed_succ i := by rw [atRound_succ']; rfl
  enter_zero := rfl
  enter_succ i := by rw [atRound_succ']; rfl
  probe_succ i j := Machine.after_succ' j (s.atRound i).entered
  bounds i := by
    have h := (s.atRound i).roundPasses_bounds
    rwa [atRound_bounds] at h
  no_return i j := digest_ne_of_lt_roundPasses
  return_or_last i := by
    cases h : (s.atRound i).return? with
    | none =>
      right
      show (s.atRound i).roundPasses = _
      unfold roundPasses
      rw [h, atRound_bounds]
      rfl
    | some n =>
      left
      exact isSome_return?_iff.1 (by rw [h]; rfl)

/-- A run that succeeds gives the tally of its search and ends where its last
round ends. -/
theorem run_of_ok {s s' : Search} {t : Tally} (h : s.run = (s', .ok t)) :
    s' = s.atRound s.bounds.rounds.toNat ∧ t = s.tally := by
  by_cases hrounds : s.bounds.rounds.toNat = 0
  · have hzero : s.bounds.rounds = 0 := UInt32.toNat_inj.1 hrounds
    rw [run_of_no_rounds hzero] at h
    cases h
    unfold tally
    rw [hrounds]
    exact ⟨rfl, rfl⟩
  · have hwf := (run_ok_iff hrounds).1 ⟨t, by rw [h]⟩
    rw [run_of_wellFormed hwf] at h
    cases h
    exact ⟨rfl, rfl⟩

namespace Course

variable {s : Search} {S S' : Nat → Machine} {P P' : Nat → Nat → Machine} {N N' : Nat → Nat}

/-- A round starts on the image of the seed. -/
theorem enter_memory (h : s.Course S P N) (i : Nat) : (P i 0).memory = (S i).memory := by
  cases i with
  | zero =>
    rw [h.enter_zero]
    rfl
  | succ i =>
    rw [h.enter_succ]
    rfl

theorem probe_eq (h : s.Course S P N) (i j : Nat) : P i j = (P i 0).after j := by
  induction j with
  | zero => rfl
  | succ j ih => rw [h.probe_succ, ih, Machine.after_succ', Machine.next]

/-- A round that starts as another one makes no more passes than that one. -/
theorem passes_le (h : s.Course S P N) (h' : s.Course S' P' N') {i : Nat} (hS : S i = S' i)
    (hP : P i = P' i) : N i ≤ N' i := by
  by_contra hlt
  have hno := h.no_return i (N' i) (h'.bounds i).1 (by omega)
  rw [hS, hP] at hno
  rcases h'.return_or_last i with hreturn | hlast
  · exact hno hreturn
  · have hbound := (h.bounds i).2
    omega

/-- A search has one course. -/
theorem unique (h : s.Course S P N) (h' : s.Course S' P' N') (i : Nat) :
    S i = S' i ∧ P i = P' i ∧ N i = N' i := by
  -- Where a round starts decides what it does.
  have hround : ∀ i, S i = S' i → P i 0 = P' i 0 → S i = S' i ∧ P i = P' i ∧ N i = N' i := by
    intro i hS henter
    have hP : P i = P' i := by
      funext j
      rw [h.probe_eq, h'.probe_eq, henter]
    exact ⟨hS, hP,
      Nat.le_antisymm (h.passes_le h' hS hP) (h'.passes_le h hS.symm hP.symm)⟩
  induction i with
  | zero =>
    have hS : S 0 = S' 0 := by rw [h.seed_zero, h'.seed_zero]
    exact hround 0 hS (by rw [h.enter_zero, h'.enter_zero, hS])
  | succ i ih =>
    obtain ⟨hS, hP, hN⟩ := ih
    have hnext : S (i + 1) = S' (i + 1) := by rw [h.seed_succ, h'.seed_succ, hS]
    exact hround (i + 1) hnext (by rw [h.enter_succ, h'.enter_succ, hP, hN, hnext])

/-- The report of a run that succeeds holds the jumps of the windows that the
rounds show, and nothing else. -/
theorem mem_report (h : s.Course S P N) {s' : Search} {t : Tally} (hrun : s.run = (s', .ok t))
    {found : Match} :
    found ∈ t.report.toList ↔
      ∃ i < s.bounds.rounds.toNat, ∃ j, (1 ≤ j ∧ j ≤ N i) ∧
        Tally.match? i j (P i j).memory.window = some found := by
  obtain ⟨-, rfl⟩ := run_of_ok hrun
  show found ∈ (Report.empty.recordAll _).toList ↔ _
  rw [Report.mem_toList_recordAll_empty]
  unfold matchesFrom roundHits
  simp only [List.mem_flatMap, List.mem_range, Machine.mem_hits, Nat.zero_add]
  refine exists_congr fun i => and_congr_right fun _ => ?_
  obtain ⟨-, hP, hN⟩ := h.unique s.course_atRound i
  rw [hP, hN]

end Course

/-- A run that succeeds records, round by round and pass by pass, the jump of
every window of the course that shows one.  Its report has these matches and no
others, and in the order of their times they stand as they were recorded.  Its
counters are the rounds, the passes and the rounds that end with a return, and it
leaves both machines where the course ends. -/
theorem run_course {s s' : Search} {t : Tally} (h : s.run = (s', .ok t)) :
    ∃ S P N, s.Course S P N ∧
      (let found : List Match := (List.range s.bounds.rounds.toNat).flatMap fun i =>
         (List.range' 1 (N i)).filterMap fun j =>
           (P i j).memory.window.jump?.map fun jump =>
             ⟨(P i j).memory.window, i, j, jump.position, jump.address⟩
       t.report = Report.empty.recordAll found ∧
         t.report.toList.Perm found ∧ t.report.chronological = found) ∧
      t.rounds = s.bounds.rounds.toNat ∧
      t.passes = ((List.range s.bounds.rounds.toNat).map N).sum ∧
      t.cycles = (List.range s.bounds.rounds.toNat).countP
        (fun i => (P i (N i)).memory.digest = (S i).memory.digest) ∧
      s'.seed = S s.bounds.rounds.toNat ∧
      ∀ i, s.bounds.rounds.toNat = i + 1 → s'.probe = P i (N i) := by
  obtain ⟨rfl, rfl⟩ := run_of_ok h
  refine ⟨_, _, _, s.course_atRound, ?_, rfl, rfl, ?_, rfl, ?_⟩
  · intro found
    have hfound : s.matchesFrom 0 s.bounds.rounds.toNat = found := by
      simp only [matchesFrom, roundHits, Machine.hits, Tally.match?, Nat.zero_add]
      rfl
    have hreport : s.tally.report = Report.empty.recordAll found :=
      congrArg Report.empty.recordAll hfound
    have hordered := s.pairwise_matchesFrom 0 s.bounds.rounds.toNat
    rw [hfound] at hordered
    rw [hreport]
    exact ⟨rfl, Report.toList_recordAll_empty_perm found,
      Report.chronological_recordAll hordered⟩
  · show s.cyclesOf s.bounds.rounds.toNat = _
    unfold cyclesOf
    refine List.countP_congr fun i _ => ?_
    rw [isSome_return?_iff, decide_eq_true_eq]
  · intro i hi
    show (s.atRound s.bounds.rounds.toNat).probe =
      (s.atRound i).entered.after (s.atRound i).roundPasses
    rw [hi, atRound_succ', nextRound]

/-- Two rounds over a seed that writes a jump into the window. -/
theorem run_course_two_rounds :
    let s : Search := .start (.start .blank [⟨1, 0xA7D0, 0xC3⟩]) [⟨7, 0xA7DF, 1⟩]
      ⟨2, 3, by decide⟩
    ∃ s' t S P N, s.run = (s', .ok t) ∧ s.Course S P N ∧ t.rounds = 2 ∧
      t.passes = N 0 + N 1 ∧ s'.seed = S 2 ∧ s'.probe = P 1 (N 1) := by
  intro s
  have hwf : s.WellFormed := ⟨by decide, by decide⟩
  have hrun := run_of_wellFormed hwf
  obtain ⟨S, P, N, hcourse, _, hrounds, hpasses, _, hseed, hprobe⟩ := run_course hrun
  exact ⟨_, _, S, P, N, hrun, hcourse, hrounds, hpasses, hseed, hprobe 1 rfl⟩

end Search

end SaveRam
