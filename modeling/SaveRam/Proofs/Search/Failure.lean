import SaveRam.Proofs.Search.Rounds

/-!
# How a search fails

A search that makes at least one round fails in the first pass of the probe or
in the first pass of the seed, or not at all.  `Search.run_cases` are the three
cases; which one holds is read off the two programs.  The probe comes first,
and a search that gets through its first round gets through all of them.

`Search.run_error` is the statement about the error that a run reports, its
coordinates, and the seed machine that it leaves.
-/

namespace SaveRam

/-- A program has a fault exactly when it has an ill-formed triple. -/
theorem Program.exists_fault_iff {p : Program} :
    (∃ fault, p.fault? = some fault) ↔ ∃ t ∈ p, ¬ t.WellFormed := by
  rw [← Option.ne_none_iff_exists', ne_eq, fault?_eq_none_iff]
  simp only [WellFormed, Classical.not_forall, exists_prop]

namespace Search

variable {σ : Type} (see : σ → Event → σ)

/-- A round has at least one probe pass. -/
theorem passes_ne_zero (b : Bounds) : b.passes.toNat ≠ 0 :=
  fun h => b.passes_ne_zero (UInt32.toNat_inj.1 h)

/-- A probe program with a fault ends its round in the first pass. -/
theorem probeRound_of_fault {probe : Machine} {fault : Fault}
    (h : probe.program.fault? = some fault) {bound : Nat} (hbound : bound ≠ 0) (round : Nat)
    (image : Memory) (acc : σ) :
    probeRound see bound round image probe acc =
      ((probe.withMemory image).next, see acc (.probing (probe.withMemory image)),
        some (.probe round 1 fault)) := by
  have hentered : (probe.withMemory image).program.fault? = some fault := h
  obtain ⟨n, rfl⟩ := Nat.exists_eq_succ_of_ne_zero hbound
  rw [probeRound, probeFrom, Machine.pass_of_fault hentered]

/-- A probe program with a fault ends the search in its first round. -/
theorem run_of_probe_fault {s : Search} (hrounds : s.bounds.rounds.toNat ≠ 0) {fault : Fault}
    (h : s.probe.program.fault? = some fault) :
    s.run = (⟨s.seed, s.entered.next, s.bounds⟩, .error (.probe 0 1 fault)) := by
  obtain ⟨n, hn⟩ := Nat.exists_eq_succ_of_ne_zero hrounds
  rw [run_eq, hn, roundsFrom, probeRound_of_fault _ h (passes_ne_zero s.bounds)]
  rfl

/-- A seed program with a fault ends the search after the first round of the
probe. -/
theorem run_of_seed_fault {s : Search} (hrounds : s.bounds.rounds.toNat ≠ 0) {fault : Fault}
    (hprobe : s.probe.program.WellFormed) (h : s.seed.program.fault? = some fault) :
    s.run = (s.nextRound, .error (.seed 0 fault)) := by
  obtain ⟨n, hn⟩ := Nat.exists_eq_succ_of_ne_zero hrounds
  rw [run_eq, hn, roundsFrom, probeRound_eq hprobe]
  dsimp only
  rw [Machine.pass_of_fault h]
  rfl

/-- The three ways in which a search with a round can end. -/
theorem run_cases {s : Search} (hrounds : s.bounds.rounds.toNat ≠ 0) :
    (∃ fault, s.probe.program.fault? = some fault ∧
      s.run = (⟨s.seed, s.entered.next, s.bounds⟩, .error (.probe 0 1 fault))) ∨
    (s.probe.program.WellFormed ∧ ∃ fault, s.seed.program.fault? = some fault ∧
      s.run = (s.nextRound, .error (.seed 0 fault))) ∨
    (s.WellFormed ∧ s.run = (s.atRound s.bounds.rounds.toNat, .ok s.tally)) := by
  -- The probe makes its first pass before the seed does.
  cases hprobe : s.probe.program.fault? with
  | some fault => exact .inl ⟨fault, rfl, run_of_probe_fault hrounds hprobe⟩
  | none =>
    have hp := Program.fault?_eq_none_iff.1 hprobe
    right
    cases hseed : s.seed.program.fault? with
    | some fault => exact .inl ⟨hp, fault, rfl, run_of_seed_fault hrounds hp hseed⟩
    | none =>
      have h : s.WellFormed := ⟨Program.fault?_eq_none_iff.1 hseed, hp⟩
      exact .inr ⟨h, run_of_wellFormed h⟩

/-- A search without rounds has nothing to do. -/
theorem run_of_no_rounds {s : Search} (h : s.bounds.rounds = 0) : s.run = (s, .ok .zero) := by
  rw [run_eq, h]
  rfl

/-- A probe fault is reported exactly when the probe program has one. -/
theorem run_probe_error_iff {s : Search} (hrounds : s.bounds.rounds.toNat ≠ 0)
    {round pass : Nat} {fault : Fault} :
    s.run.2 = .error (.probe round pass fault) ↔
      round = 0 ∧ pass = 1 ∧ s.probe.program.fault? = some fault := by
  rcases run_cases hrounds with
    ⟨fault', hfault, hrun⟩ | ⟨hprobe, _, _, hrun⟩ | ⟨⟨_, hprobe⟩, hrun⟩
  · rw [hrun, hfault]
    constructor
    · rintro ⟨⟩
      exact ⟨rfl, rfl, rfl⟩
    · rintro ⟨rfl, rfl, ⟨⟩⟩
      rfl
  all_goals
    rw [hrun, Program.fault?_eq_none_iff.2 hprobe]
    simp

/-- A seed fault is reported exactly when the seed program has one and the
probe program has none. -/
theorem run_seed_error_iff {s : Search} (hrounds : s.bounds.rounds.toNat ≠ 0)
    {round : Nat} {fault : Fault} :
    s.run.2 = .error (.seed round fault) ↔
      round = 0 ∧ s.probe.program.WellFormed ∧ s.seed.program.fault? = some fault := by
  rcases run_cases hrounds with
    ⟨_, hfault, hrun⟩ | ⟨hprobe, fault', hfault, hrun⟩ | ⟨⟨hseed, _⟩, hrun⟩
  · rw [hrun, ← Program.fault?_eq_none_iff, hfault]
    simp
  · rw [hrun, hfault]
    constructor
    · rintro ⟨⟩
      exact ⟨rfl, hprobe, rfl⟩
    · rintro ⟨rfl, _, ⟨⟩⟩
      rfl
  · rw [hrun, Program.fault?_eq_none_iff.2 hseed]
    simp

/-- A search with a round succeeds exactly when both programs are well-formed. -/
theorem run_ok_iff {s : Search} (hrounds : s.bounds.rounds.toNat ≠ 0) :
    (∃ t, s.run.2 = .ok t) ↔ s.WellFormed := by
  constructor
  · rintro ⟨t, ht⟩
    rcases run_cases hrounds with ⟨_, _, hrun⟩ | ⟨_, _, _, hrun⟩ | ⟨h, _⟩
    · rw [hrun] at ht
      cases ht
    · rw [hrun] at ht
      cases ht
    · exact h
  · intro h
    exact ⟨s.tally, by rw [run_of_wellFormed h]⟩

/-- A search succeeds exactly when it has no round or both programs are
well-formed. -/
theorem exists_run_iff (s : Search) :
    (∃ t, s.run.2 = .ok t) ↔ s.bounds.rounds = 0 ∨ s.WellFormed := by
  by_cases h : s.bounds.rounds = 0
  · rw [run_of_no_rounds h]
    exact iff_of_true ⟨_, rfl⟩ (.inl h)
  · rw [run_ok_iff fun hrounds => h (UInt32.toNat_inj.1 hrounds), or_iff_right h]

/-- A run of a search with a round reports a probe fault exactly when the probe
program has an ill-formed triple, else a seed fault exactly when the seed
program has one, and always the fault of the first such triple, in the first
pass of its machine.  A probe fault leaves the seed as it was; a seed fault
leaves what the triples before the ill-formed one did. -/
theorem run_error (s : Search) :
    (s.bounds.rounds = 0 → s.run = (s, .ok ⟨.empty, 0, 0, 0⟩)) ∧
    (s.bounds.rounds ≠ 0 →
      ((∃ round pass fault, s.run.2 = .error (.probe round pass fault)) ↔
        ∃ t ∈ s.probe.program, ¬ t.WellFormed) ∧
      (∀ round pass fault, s.run.2 = .error (.probe round pass fault) →
        round = 0 ∧ pass = 1 ∧ s.probe.program.fault? = some fault ∧ s.run.1.seed = s.seed) ∧
      ((∀ t ∈ s.probe.program, t.WellFormed) →
        ((∃ round fault, s.run.2 = .error (.seed round fault)) ↔
          ∃ t ∈ s.seed.program, ¬ t.WellFormed) ∧
        ((∃ t, s.run.2 = .ok t) ↔ ∀ t ∈ s.seed.program, t.WellFormed)) ∧
      ∀ round fault, s.run.2 = .error (.seed round fault) →
        round = 0 ∧ s.seed.program.fault? = some fault ∧
          s.run.1.seed =
            ⟨s.seed.program.sound.effect s.seed.state, s.seed.program, s.seed.passes⟩) := by
  refine ⟨run_of_no_rounds, fun hne => ?_⟩
  have hrounds : s.bounds.rounds.toNat ≠ 0 := fun h => hne (UInt32.toNat_inj.1 h)
  rw [← Program.exists_fault_iff, ← Program.exists_fault_iff]
  refine ⟨⟨?_, ?_⟩, ?_, fun hprobe => ⟨⟨?_, ?_⟩, ?_⟩, ?_⟩
  · rintro ⟨_, _, fault, h⟩
    exact ⟨fault, ((run_probe_error_iff hrounds).1 h).2.2⟩
  · rintro ⟨fault, h⟩
    exact ⟨0, 1, fault, (run_probe_error_iff hrounds).2 ⟨rfl, rfl, h⟩⟩
  · intro round pass fault h
    obtain ⟨hround, hpass, hfault⟩ := (run_probe_error_iff hrounds).1 h
    exact ⟨hround, hpass, hfault, by rw [run_of_probe_fault hrounds hfault]⟩
  · rintro ⟨_, fault, h⟩
    exact ⟨fault, ((run_seed_error_iff hrounds).1 h).2.2⟩
  · rintro ⟨fault, h⟩
    exact ⟨0, fault, (run_seed_error_iff hrounds).2 ⟨rfl, hprobe, h⟩⟩
  · rw [run_ok_iff hrounds]
    exact and_iff_left hprobe
  · intro round fault h
    obtain ⟨hround, hprobe, hfault⟩ := (run_seed_error_iff hrounds).1 h
    refine ⟨hround, hfault, ?_⟩
    rw [run_of_seed_fault hrounds hprobe hfault]
    exact Machine.next_of_fault hfault

/-- With both programs ill-formed the probe's fault is reported, and with only
the seed program ill-formed the seed's. -/
theorem run_error_probe_then_seed :
    let seed := Machine.start .blank [⟨1, 0xA000, 7⟩, ⟨6, 0xA001, 0xC000⟩]
    let s : Search := .start seed [⟨0, 0, 0⟩, ⟨9, 0, 0⟩] ⟨3, 5, by decide⟩
    let r : Search := .start seed [⟨0, 0, 0⟩] ⟨3, 5, by decide⟩
    (s.run.2 = .error (.probe 0 1 (.unknownOperation 1 9)) ∧ s.run.1.seed = seed) ∧
      r.run.2 = .error (.seed 0 (.unmapped 0xC000)) ∧
        r.run.1.seed = ⟨Program.effect [⟨1, 0xA000, 7⟩] seed.state, seed.program, 0⟩ := by
  intro seed s r
  have hs : s.probe.program.fault? = some (.unknownOperation 1 9) := by decide
  have hr : r.seed.program.fault? = some (.unmapped 0xC000) := by decide
  constructor
  · obtain ⟨hprobe, herror, _⟩ := (run_error s).2 (by decide)
    obtain ⟨round, pass, fault, h⟩ := hprobe.2 (Program.exists_fault_iff.1 ⟨_, hs⟩)
    obtain ⟨rfl, rfl, hfault, hseed⟩ := herror round pass fault h
    rw [hs] at hfault
    cases hfault
    exact ⟨h, hseed⟩
  · obtain ⟨_, _, hseed, herror⟩ := (run_error r).2 (by decide)
    obtain ⟨round, fault, h⟩ :=
      (hseed (by decide)).1.2 (Program.exists_fault_iff.1 ⟨_, hr⟩)
    obtain ⟨rfl, hfault, hleft⟩ := herror round fault h
    rw [hr] at hfault
    cases hfault
    refine ⟨h, hleft.trans ?_⟩
    rfl

end Search

end SaveRam
