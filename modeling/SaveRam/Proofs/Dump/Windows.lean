import Mathlib.Order.Bounds.Defs
import SaveRam.Dump
import SaveRam.Proofs.Search.Course

/-!
# What a dump shows

The windows of a dump in closed form (`Machine.windows`,
`Machine.dump_of_wellFormed`), and the comparison with a search
(`Search.run_of_dump`): a search of one round looks at the windows that a dump of its
probe shows, from the second one on, up to the first one that has the digest of the
first window.

All this is about dumps that there is room for (`Dump.fits_iff`).  A dump of more
passes is given up before its first one (`Machine.dump_of_not_fits`).
-/

namespace SaveRam

/-! ## Room for the windows -/

namespace Dump

/-- As long as the number of windows is a 64-bit number, it has to be below `2 ^ 59`. -/
theorem fits_iff {n : Nat} (h : n + 1 < UInt64.size) : Fits n ↔ n + 1 < 2 ^ 59 := by
  unfold Fits
  rw [Nat.mod_eq_of_lt h, UInt64.size]
  omega

theorem fits_of_lt {n : Nat} (h : n + 1 < 2 ^ 59) : Fits n :=
  (fits_iff (Nat.lt_trans h (by decide))).2 h

/-- There is room for the windows of as many passes as a 32-bit number can count. -/
theorem fits_toNat (n : UInt32) : Fits n.toNat := by
  have hn : n.toNat < 2 ^ 32 := n.toNat_lt
  exact fits_of_lt (by omega)

end Dump

/-! ## The windows of the passes -/

namespace Machine

/-- The passes of a dump show a window each.  The induction is on the passes
that remain. -/
theorem dumpFrom_of_wellFormed {σ : Type} (see : σ → Dump.Event → σ) {m : Machine}
    (h : m.program.WellFormed) (remaining index : Nat) (windows : Array Window) (acc : σ) :
    ∃ acc', dumpFrom see remaining index m windows acc =
      (m.after remaining, acc', .ok (windows.toList ++
        (List.range' 1 remaining).map fun j => (m.after j).memory.window)) := by
  induction remaining generalizing m index windows acc with
  | zero => exact ⟨acc, by simp [dumpFrom]⟩
  | succ remaining ih =>
    have hnext : m.next.program.WellFormed := by
      rw [next_program]
      exact h
    obtain ⟨acc', hrest⟩ := ih hnext (index + 1) (windows.push m.next.memory.window)
      (see (see acc (.passing m)) (.passed index m.next.carried))
    have hwindows : (List.range' 1 (remaining + 1)).map (fun j => (m.after j).memory.window) =
        m.next.memory.window ::
          (List.range' 1 remaining).map fun j => (m.next.after j).memory.window := by
      rw [List.range'_succ, List.map_cons, List.range'_succ_left, List.map_map]
      rfl
    refine ⟨acc', ?_⟩
    rw [dumpFrom, pass_of_wellFormed h]
    dsimp only
    rw [hrest, hwindows, after_succ]
    simp

/-- A dump that there is no room for is given up before anything happens. -/
theorem dump_of_not_fits {n : Nat} (hn : ¬ Dump.Fits n) (m : Machine) :
    m.dump n = (m, .error .tooLong) := by
  rw [dump, dumpWith, if_neg hn]

/-- A dump shows the window before the first pass and after each pass. -/
theorem dump_of_wellFormed {m : Machine} (h : m.program.WellFormed) {n : Nat}
    (hn : Dump.Fits n) :
    m.dump n = (m.after n, .ok ((List.range (n + 1)).map fun j => (m.after j).memory.window)) := by
  obtain ⟨_, hdump⟩ := dumpFrom_of_wellFormed (fun (_ : Unit) _ => ()) h n 0
    #[m.memory.window] ()
  rw [dump, dumpWith, if_pos hn, hdump, List.range_eq_range', List.range'_succ]
  simp

/-- The window before the first of `n` passes and the windows after each of
them. -/
def windows (m : Machine) (n : Nat) : List Window :=
  (List.range (n + 1)).map fun j => (m.after j).memory.window

theorem dump_eq_windows {m : Machine} (h : m.program.WellFormed) {n : Nat} (hn : Dump.Fits n) :
    m.dump n = (m.after n, .ok (m.windows n)) :=
  dump_of_wellFormed h hn

end Machine

/-! ## A dump beside a search -/

namespace Search

/-- A round ends at the least pass that returns, or it has no return and makes
all passes that it may. -/
theorem roundPasses_cases (s : Search) :
    IsLeast {j | (1 ≤ j ∧ j ≤ s.bounds.passes.toNat) ∧
        (s.entered.after j).memory.digest = s.seed.memory.digest} s.roundPasses ∧
      s.return?.isSome ∨
    (∀ j, 1 ≤ j → j ≤ s.bounds.passes.toNat →
        (s.entered.after j).memory.digest ≠ s.seed.memory.digest) ∧
      s.roundPasses = s.bounds.passes.toNat ∧ ¬ s.return?.isSome := by
  unfold roundPasses
  cases hreturn : s.return? with
  | none =>
    right
    exact ⟨Machine.firstReturn?_eq_none_iff.1 hreturn, rfl, Bool.false_ne_true⟩
  | some n =>
    left
    obtain ⟨hdigest, hn, hfirst⟩ := Machine.firstReturn?_eq_some_iff.1 hreturn
    refine ⟨⟨⟨hn, hdigest⟩, ?_⟩, rfl⟩
    intro j hj
    obtain ⟨⟨hlow, -⟩, hjdigest⟩ := hj
    by_contra hlt
    exact hfirst j hlow (Nat.lt_of_not_le hlt) hjdigest

/-- A fresh search of one round sees the windows of a dump of its probe on the
same image.  It makes passes up to the first window with the digest of window 0
and counts a return, or it makes all passes that it may and counts none.  What
it records are the jumps of these windows, window 0 excepted, in order.  Its report
has them and nothing else, and in the order of their times they stand as they were
recorded. -/
theorem run_of_dump {image : Memory} {seed probe : Program} {b : Bounds} (hrounds : b.rounds = 1)
    (hseed : ∃ st, (seed.pass st).2 = none) (hprobe : ∃ st, (probe.pass st).2 = none) :
    ∃ (m : Machine) (w : Nat → Window) (s : Search) (t : Tally),
      (Machine.start image probe).dump b.passes.toNat =
        (m, .ok ((List.range (b.passes.toNat + 1)).map w)) ∧
      (start (.start image seed) probe b).run = (s, .ok t) ∧
      (IsLeast {j | (1 ≤ j ∧ j ≤ b.passes.toNat) ∧ (w j).digest = (w 0).digest} t.passes ∧
          t.cycles = 1 ∨
        (∀ j, 1 ≤ j → j ≤ b.passes.toNat → (w j).digest ≠ (w 0).digest) ∧
          t.passes = b.passes.toNat ∧ t.cycles = 0) ∧
      let found : List Match := (List.range' 1 t.passes).filterMap fun j =>
        (w j).jump?.map fun jump => ⟨w j, 0, j, jump.position, jump.address⟩
      t.report = Report.empty.recordAll found ∧
        t.report.toList.Perm found ∧ t.report.chronological = found := by
  have hprobeWf : (Machine.start image probe).program.WellFormed :=
    Program.exists_pass_iff.1 hprobe
  let s : Search := start (.start image seed) probe b
  have h : s.WellFormed := ⟨Program.exists_pass_iff.1 hseed, hprobeWf⟩
  have hentered : s.entered = Machine.start image probe := rfl
  refine ⟨_, fun j => (s.entered.after j).memory.window, _, _,
    Machine.dump_of_wellFormed hprobeWf (Dump.fits_toNat _), run_of_wellFormed h, ?_, ?_⟩
  · rw [tally_of_one_round hrounds]
    rcases s.roundPasses_cases with ⟨hleast, hreturn⟩ | ⟨hno, hall, hreturn⟩
    · left
      exact ⟨hleast, if_pos hreturn⟩
    · right
      exact ⟨hno, hall, if_neg hreturn⟩
  · rw [tally_of_one_round hrounds]
    intro found
    have hfound : s.roundHits 0 = found := by
      unfold roundHits Machine.hits
      simp only [Tally.match?, Nat.zero_add]
      rfl
    have hordered : found.Pairwise fun x y => x.time < y.time := by
      rw [← hfound]
      exact Machine.pairwise_hits ..
    dsimp only
    rw [hfound]
    exact ⟨rfl, Report.toList_recordAll_empty_perm found, Report.chronological_recordAll hordered⟩

/-- Six windows of a probe that swaps the halves of a byte and diffs it, under a
seed of its own. -/
theorem run_of_dump_swap :
    let image : Memory := .ofBytes [0x3C, 7]
    let probe : Program := [⟨2, 0xA7D0, 0⟩, ⟨3, 0xA7D0, 1⟩]
    let b : Bounds := ⟨1, 5, by decide⟩
    ∃ (m : Machine) (w : Nat → Window) (s : Search) (t : Tally),
      (Machine.start image probe).dump 5 = (m, .ok ((List.range 6).map w)) ∧
      (start (.start image [⟨1, 0xA7D0, 9⟩]) probe b).run = (s, .ok t) ∧
      (t.cycles = 1 ∨ t.passes = 5) ∧
      t.report = Report.empty.recordAll ((List.range' 1 t.passes).filterMap fun j =>
        (w j).jump?.map fun jump => ⟨w j, 0, j, jump.position, jump.address⟩) := by
  intro image probe b
  have hseed : ∃ st, (Program.pass [⟨1, 0xA7D0, 9⟩] st).2 = none :=
    Program.exists_pass_iff.2 (by decide)
  have hprobe : ∃ st, (probe.pass st).2 = none := Program.exists_pass_iff.2 (by decide)
  obtain ⟨m, w, s, t, hdump, hrun, hpasses, hreport, -⟩ := run_of_dump (b := b) rfl hseed hprobe
  refine ⟨m, w, s, t, hdump, hrun, ?_, hreport⟩
  rcases hpasses with ⟨-, hcycles⟩ | ⟨-, hall, -⟩
  · exact .inl hcycles
  · exact .inr hall

end Search

end SaveRam
