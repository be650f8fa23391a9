import SaveRam.Proofs.Report.Grouping
import SaveRam.Proofs.Search.Course
import SaveRam.Proofs.Search.Observer

/-!
# The totals of a search

How the counters of a tally are tied to the bounds of the search and to each
other, and that no counter leaves its machine word while the search runs.

* Rounds and passes.  `Search.counts_bounds` is the induction over the rounds: a
  round makes all the passes that it may unless it ends early, and then it still
  makes one.
* The machines.  A search adds its rounds to the pass count of the seed and its
  passes to that of the probe (`Search.probe_passes_atRound`).
* The tally on the way.  One event never lowers a counter
  (`Tally.counts_le_see`), and it keeps the rounds within the bounds and the
  matches below the passes (`Tally.see_within`).  So every tally on the way is
  bounded by the last one (`Search.counts_le_of_isPrefix`).

`Search.run_totals` collects what holds of a run.
-/

namespace SaveRam

namespace Bounds

variable (b : Bounds)

theorem maxPasses_lt : b.maxPasses < 2 ^ 64 := by
  have h : b.rounds.toNat * b.passes.toNat < 2 ^ 32 * 2 ^ 32 :=
    Nat.mul_lt_mul'' b.rounds.toNat_lt b.passes.toNat_lt
  exact h

/-- The product of the bounds is exact in 64 bits. -/
theorem toNat_mul_toUInt64 :
    (b.rounds.toUInt64 * b.passes.toUInt64).toNat = b.maxPasses := by
  rw [UInt64.toNat_mul, UInt32.toNat_toUInt64, UInt32.toNat_toUInt64]
  exact Nat.mod_eq_of_lt b.maxPasses_lt

end Bounds

namespace Search

/-! ## Rounds and passes -/

/-- A round that does not end early makes all the passes that it may. -/
theorem passes_le_roundPasses_add (s : Search) :
    s.bounds.passes.toNat ≤
      s.roundPasses + (if s.return?.isSome then 1 else 0) * (s.bounds.passes.toNat - 1) := by
  have hlow := s.roundPasses_bounds.1
  cases h : s.return? with
  | none =>
    rw [roundPasses, h]
    exact Nat.le_add_right ..
  | some n =>
    simp only [Option.isSome_some, if_true]
    omega

/-- The passes and the early ends of `n` rounds. -/
theorem counts_bounds (n : Nat) (s : Search) :
    n ≤ s.passesOf n ∧ s.passesOf n ≤ n * s.bounds.passes.toNat ∧ s.cyclesOf n ≤ n ∧
      n * s.bounds.passes.toNat ≤ s.passesOf n + s.cyclesOf n * (s.bounds.passes.toNat - 1) := by
  induction n generalizing s with
  | zero => simp [passesOf, cyclesOf]
  | succ n ih =>
    obtain ⟨hlow, hhigh, hcycles, hmissing⟩ := ih s.nextRound
    obtain ⟨hlow', hhigh'⟩ := s.roundPasses_bounds
    have hmissing' := s.passes_le_roundPasses_add
    have hbounds : s.nextRound.bounds = s.bounds := rfl
    rw [hbounds] at hhigh hmissing
    rw [passesOf_succ, cyclesOf_succ, Nat.succ_mul, Nat.add_mul]
    refine ⟨by omega, by omega, ?_, by omega⟩
    split <;> omega

/-! ## The machines -/

/-- The probe counts the passes of all rounds. -/
theorem probe_passes_atRound {s : Search} (h : s.probe.program.WellFormed) (n : Nat) :
    (s.atRound n).probe.passes = s.probe.passes + s.passesOf n := by
  induction n generalizing s with
  | zero => rfl
  | succ n ih =>
    have hentered : s.entered.program.WellFormed := h
    have hround : s.nextRound.probe = s.entered.after s.roundPasses := rfl
    have hnext : s.nextRound.probe.program.WellFormed := by
      rw [hround, Machine.after_program]
      exact hentered
    rw [atRound_succ, ih hnext, passesOf_succ, hround, Machine.after_of_wellFormed hentered,
      Nat.add_assoc]
    rfl

/-- A run that succeeds adds its rounds to the seed's passes and its passes to
the probe's. -/
theorem passes_of_run {s s' : Search} {t : Tally} (h : s.run = (s', .ok t)) :
    s'.seed.passes = s.seed.passes + t.rounds ∧ s'.probe.passes = s.probe.passes + t.passes := by
  obtain ⟨rfl, rfl⟩ := run_of_ok h
  show (s.atRound s.bounds.rounds.toNat).seed.passes = s.seed.passes + s.bounds.rounds.toNat ∧
    (s.atRound s.bounds.rounds.toNat).probe.passes =
      s.probe.passes + s.passesOf s.bounds.rounds.toNat
  by_cases hrounds : s.bounds.rounds.toNat = 0
  · rw [hrounds]
    exact ⟨rfl, rfl⟩
  · have hwf := (run_ok_iff hrounds).1 ⟨_, congrArg Prod.snd h⟩
    exact ⟨by rw [seed_atRound, Machine.after_of_wellFormed hwf.1],
      probe_passes_atRound hwf.2 _⟩

end Search

/-! ## The tally on the way -/

namespace Tally

/-- The totals of a finished search with the given bounds. -/
structure Balanced (b : Bounds) (t : Tally) : Prop where
  rounds_eq : t.rounds = b.rounds.toNat
  cycles_le : t.cycles ≤ b.rounds.toNat
  rounds_le_passes : b.rounds.toNat ≤ t.passes
  passes_le : t.passes ≤ b.rounds.toNat * b.passes.toNat
  /-- Only a round that ends early makes fewer passes than it may. -/
  missing_le : b.rounds.toNat * b.passes.toNat - t.passes ≤ t.cycles * (b.passes.toNat - 1)
  all_of_no_cycles : t.cycles = 0 → t.passes = b.rounds.toNat * b.passes.toNat

/-- A tally whose rounds and early ends are 32-bit words and whose passes and
matches are 64-bit words. -/
structure Fits (t : Tally) : Prop where
  rounds_lt : t.rounds < 2 ^ 32
  cycles_lt : t.cycles < 2 ^ 32
  passes_lt : t.passes < 2 ^ 64
  size_lt : t.report.size < 2 ^ 64

variable {t : Tally}

/-- No event lowers the number of passes or of early ends. -/
theorem counts_le_see (t : Tally) (e : Search.Event) :
    t.passes ≤ (t.see e).passes ∧ t.cycles ≤ (t.see e).cycles := by
  cases e with
  | probed =>
    rw [see_probed]
    exact ⟨Nat.le_succ _, Nat.le_refl _⟩
  | cycled => exact ⟨Nat.le_refl _, Nat.le_succ _⟩
  | round | probing | seeding | done => exact ⟨Nat.le_refl _, Nat.le_refl _⟩

/-- An event within the bounds keeps the rounds there, and no pass gives more
than one match. -/
theorem see_within {rounds passes : Nat} {e : Search.Event} (he : e.Within rounds passes)
    (h : t.rounds ≤ rounds ∧ t.report.size ≤ t.passes) :
    (t.see e).rounds ≤ rounds ∧ (t.see e).report.size ≤ (t.see e).passes := by
  cases e with
  | probed round pass w =>
    have hmatch : (match? round pass w).toList.length ≤ 1 := Option.length_toList_le
    rw [see_probed]
    refine ⟨h.1, ?_⟩
    dsimp only
    rw [Report.size_recordAll]
    omega
  | done round => exact ⟨Nat.succ_le_of_lt he, h.2⟩
  | round | probing | seeding | cycled => exact h

end Tally

namespace Search

/-- On the way of a search the rounds stay within the bounds and the matches
below the passes. -/
theorem within_of_isPrefix {s : Search} {es : List Event} (hes : es <+: s.events) :
    (es.foldl Tally.see .zero).rounds ≤ s.bounds.rounds.toNat ∧
      (es.foldl Tally.see .zero).report.size ≤ (es.foldl Tally.see .zero).passes :=
  List.foldlRecOn (motive := fun t : Tally =>
      t.rounds ≤ s.bounds.rounds.toNat ∧ t.report.size ≤ t.passes) es Tally.see
    ⟨Nat.zero_le _, Nat.le_refl _⟩
    fun _ ht _ he => Tally.see_within (within_of_mem_events s (hes.subset he)) ht

/-- On the way of a search no counter is larger than at the end. -/
theorem counts_le_of_isPrefix {es es' : List Event} (hes : es <+: es') :
    (es.foldl Tally.see .zero).passes ≤ (es'.foldl Tally.see .zero).passes ∧
      (es.foldl Tally.see .zero).cycles ≤ (es'.foldl Tally.see .zero).cycles := by
  obtain ⟨later, rfl⟩ := hes
  rw [List.foldl_append]
  refine List.foldlRecOn (motive := fun t : Tally =>
    (es.foldl Tally.see .zero).passes ≤ t.passes ∧ (es.foldl Tally.see .zero).cycles ≤ t.cycles)
    later Tally.see ⟨Nat.le_refl _, Nat.le_refl _⟩ fun t ht e _ => ?_
  have hstep := t.counts_le_see e
  exact ⟨Nat.le_trans ht.1 hstep.1, Nat.le_trans ht.2 hstep.2⟩

/-- The totals of a whole search. -/
theorem balanced_tally (s : Search) : s.tally.Balanced s.bounds := by
  obtain ⟨hlow, hhigh, hcycles, hmissing⟩ := s.counts_bounds s.bounds.rounds.toNat
  refine ⟨rfl, hcycles, hlow, hhigh, Nat.sub_le_iff_le_add'.2 hmissing, fun hzero => ?_⟩
  have hnone : s.cyclesOf s.bounds.rounds.toNat = 0 := hzero
  rw [hnone, Nat.zero_mul, Nat.add_zero] at hmissing
  exact Nat.le_antisymm hhigh hmissing

/-- The totals of a run that succeeds.  All rounds are made; a round makes at
least one pass and, if it does not end early, all that it may.  There are no
more matches than passes, and the report counts its matches and addresses.  The
machines have made as many passes as were counted.  No counter, and not the
product of the bounds, is ever too large for its word: every tally on the way,
after any of the events, is in range. -/
theorem run_totals {s s' : Search} {t : Tally} (h : s.run = (s', .ok t)) :
    t.Balanced s.bounds ∧
    (∀ b : Bounds, (b.rounds.toUInt64 * b.passes.toUInt64).toNat = b.maxPasses) ∧
    (t.report.size ≤ t.passes ∧ t.report.size = (t.report.groups.map fun g => g.2.length).sum ∧
      t.report.addressCount ≤ min t.report.size 0x10000) ∧
    (s'.seed.passes = s.seed.passes + s.bounds.rounds.toNat ∧
      s'.probe.passes = s.probe.passes + t.passes) ∧
    t = s.events.foldl Tally.see .zero ∧
    ∀ es, es <+: s.events → (es.foldl Tally.see .zero).Fits := by
  have hmachines := passes_of_run h
  have hevents := tally_eq_foldl_events s h
  obtain ⟨-, rfl⟩ := run_of_ok h
  have hbalanced := s.balanced_tally
  have hreport : s.tally.report = Report.empty.recordAll (s.matchesFrom 0 s.bounds.rounds.toNat) :=
    rfl
  have hsize := (within_of_isPrefix (List.prefix_refl s.events)).2
  rw [← hevents] at hsize
  refine ⟨hbalanced, Bounds.toNat_mul_toUInt64, ⟨hsize, ?_, ?_⟩, hmachines, hevents,
    fun es hes => ?_⟩
  · rw [hreport]
    exact Report.size_eq_sum_length _
  · rw [hreport]
    exact Report.addressCount_le _
  · have hwithin := within_of_isPrefix hes
    have hcounts := counts_le_of_isPrefix hes
    rw [← hevents] at hcounts
    have hrounds : s.bounds.rounds.toNat < 2 ^ 32 := s.bounds.rounds.toNat_lt
    have hpasses : s.tally.passes < 2 ^ 64 :=
      Nat.lt_of_le_of_lt hbalanced.passes_le s.bounds.maxPasses_lt
    have hcycles := hbalanced.cycles_le
    exact ⟨by omega, by omega, by omega, by omega⟩

/-- A seed that writes a jump behind the digested bytes, so that every round
ends with its first pass. -/
theorem run_totals_cycles :
    let s : Search := .start (.start .blank [⟨1, 0xA7DB, 0xC3⟩]) [⟨7, 0xA7DF, 1⟩]
      ⟨2, 3, by decide⟩
    ∃ s' t, s.run = (s', .ok t) ∧ t.Balanced s.bounds ∧ t.report.size ≤ t.passes ∧
      s'.seed.passes = 2 ∧ s'.probe.passes = t.passes ∧
      (s.events.foldl Tally.see .zero).Fits := by
  intro s
  have hrun := run_of_wellFormed (s := s) ⟨by decide, by decide⟩
  obtain ⟨hbalanced, -, ⟨hsize, -, -⟩, ⟨hseed, hprobe⟩, -, hfits⟩ := run_totals hrun
  refine ⟨_, _, hrun, hbalanced, hsize, hseed, hprobe.trans (Nat.zero_add _),
    hfits _ (List.prefix_refl _)⟩

end Search

end SaveRam
