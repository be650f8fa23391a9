import SaveRam.Proofs.Pass.Involution
import SaveRam.Proofs.Search.Course

/-!
# Rounds that are over after one pass

A round ends with its first pass exactly when this pass brings the digest of the
image back (`Search.return?_eq_one_iff`).  If every round does, the passes and the
early ends of a search are its rounds (`Search.counts_of_first_returns`).

A probe whose program undoes itself is such a case: `Search.run_of_mirrored`.
-/

namespace SaveRam

namespace Search

variable {s : Search}

theorem return?_eq_one_iff :
    s.return? = some 1 ↔ s.entered.next.memory.digest = s.seed.memory.digest := by
  unfold return?
  rw [Machine.firstReturn?_eq_some_iff, Machine.after_succ, Machine.after_zero]
  constructor
  · exact fun h => h.1
  · intro h
    have hpasses := passes_ne_zero s.bounds
    exact ⟨h, by omega, by omega⟩

theorem roundPasses_of_return {n : Nat} (h : s.return? = some n) : s.roundPasses = n := by
  rw [roundPasses, h, Option.getD_some]

/-- A search whose rounds are all over after one pass makes as many passes as rounds,
and all of them end early. -/
theorem counts_of_first_returns (h : ∀ i, (s.atRound i).return? = some 1) (n : Nat) :
    s.passesOf n = n ∧ s.cyclesOf n = n := by
  induction n generalizing s with
  | zero => exact ⟨rfl, rfl⟩
  | succ n ih =>
    have hfirst : s.return? = some 1 := h 0
    obtain ⟨hpasses, hcycles⟩ := ih fun i => h (i + 1)
    rw [passesOf_succ, cyclesOf_succ, hpasses, hcycles, roundPasses_of_return hfirst, hfirst]
    exact ⟨Nat.add_comm 1 n, Nat.add_comm 1 n⟩

/-- A probe that undoes itself returns in the first pass of every round. -/
theorem return?_of_mirrored {p : Program} (hp : p.WellFormed) (h : ∀ t ∈ p, t.Involutive)
    (hprobe : s.probe.program = p ++ p.reverse) (i : Nat) : (s.atRound i).return? = some 1 := by
  have hentered : (s.atRound i).entered.program = p ++ p.reverse := by
    show (s.atRound i).probe.program = _
    rw [program_atRound, hprobe]
  rw [return?_eq_one_iff, Machine.next, Machine.pass_of_mirrored hp h hentered]
  rfl

/-- A search gives its tally if no pass of its probe and none of the seed passes that
it needs fails. -/
theorem run_of_seed_run (hprobe : s.probe.program.WellFormed)
    (hseed : (s.seed.run s.bounds.rounds.toNat).2 = none) :
    s.run = (s.atRound s.bounds.rounds.toNat, .ok s.tally) := by
  have hruns : s.bounds.rounds = 0 ∨ s.WellFormed := by
    rcases Machine.run_eq_none_iff.1 hseed with hrounds | hwf
    · exact .inl (UInt32.toNat_inj.1 hrounds)
    · exact .inr ⟨hwf, hprobe⟩
  obtain ⟨t, ht⟩ := (exists_run_iff s).2 hruns
  have hrun : s.run = (s.run.1, .ok t) := by rw [← ht]
  obtain ⟨hs, rfl⟩ := run_of_ok hrun
  rw [hrun, hs]

/-- Swaps, reversals and exclusive ors with another byte, followed by the same triples
in reverse order: one pass over all of them leaves memory and nibble as they were, and
a search with this probe program ends every round after one pass. -/
theorem run_of_mirrored {p : Program} (hp : p.WellFormed) (h : ∀ t ∈ p, t.Involutive) :
    (∀ m : Machine, m.program = p ++ p.reverse →
      m.pass.2 = none ∧ m.pass.1.memory = m.memory ∧ m.pass.1.carried = m.carried ∧
        m.pass.1.memory.window = m.memory.window ∧ m.pass.1.memory.digest = m.memory.digest) ∧
    ∀ s : Search, s.probe.program = p ++ p.reverse →
      (s.seed.run s.bounds.rounds.toNat).2 = none →
      ∃ s' t, s.run = (s', .ok t) ∧ t.rounds = s.bounds.rounds.toNat ∧
        t.passes = t.rounds ∧ t.cycles = t.rounds ∧
        ∀ S P N, s.Course S P N → ∀ i, N i = 1 ∧ (P i 1).memory.digest = (S i).memory.digest := by
  refine ⟨fun m hm => ?_, fun s hprobe hseed => ?_⟩
  · rw [Machine.pass_of_mirrored hp h hm]
    exact ⟨rfl, rfl, rfl, rfl, rfl⟩
  · have hwf : s.probe.program.WellFormed := hprobe ▸ hp.append_reverse
    have hreturn := return?_of_mirrored (s := s) hp h hprobe
    obtain ⟨hpasses, hcycles⟩ := counts_of_first_returns hreturn s.bounds.rounds.toNat
    refine ⟨_, _, run_of_seed_run hwf hseed, rfl, hpasses, hcycles, fun S P N hcourse i => ?_⟩
    obtain ⟨hS, hP, hN⟩ := hcourse.unique s.course_atRound i
    rw [hS, hP, hN]
    exact ⟨roundPasses_of_return (hreturn i), return?_eq_one_iff.1 (hreturn i)⟩

/-- Two bytes of the window that are combined with each other in both directions, over
a seed that changes one of them. -/
theorem run_of_mirrored_window :
    let p : Program := [⟨2, 0xA7D0, 0⟩, ⟨5, 0xA7D0, 0xA7D1⟩, ⟨5, 0xA7D1, 0xA7D0⟩, ⟨4, 0xA7D1, 0⟩]
    let s : Search := .start (.start .blank [⟨3, 0xA7D0, 1⟩, ⟨7, 0xA7D1, 0x35⟩])
      (p ++ p.reverse) ⟨3, 40, by decide⟩
    p.WellFormed ∧ (∀ t ∈ p, t.Involutive) ∧ s.probe.pass.1.memory = s.probe.memory ∧
      ∃ s' t, s.run = (s', .ok t) ∧ t.rounds = 3 ∧ t.passes = 3 ∧ t.cycles = 3 := by
  intro p s
  have hp : p.WellFormed := by decide
  have h : ∀ t ∈ p, t.Involutive := by
    simp only [p, List.forall_mem_cons]
    have hne : (0xA7D0 : Address) ≠ 0xA7D1 := by decide
    exact ⟨⟨_, rfl, trivial⟩, ⟨_, rfl, hne⟩, ⟨_, rfl, hne.symm⟩, ⟨_, rfl, trivial⟩, nofun⟩
  have hseed : (s.seed.run s.bounds.rounds.toNat).2 = none :=
    Machine.run_eq_none_iff.2 (.inr (by decide))
  obtain ⟨hpass, hsearch⟩ := run_of_mirrored hp h
  obtain ⟨-, hmemory, -⟩ := hpass s.probe rfl
  obtain ⟨s', t, hrun, hrounds, hpasses, hcycles, -⟩ := hsearch s rfl hseed
  have hthree : t.rounds = 3 := hrounds
  rw [hthree] at hpasses hcycles
  exact ⟨hp, h, hmemory, s', t, hrun, hthree, hpasses, hcycles⟩

end Search

end SaveRam
