import Mathlib.Dynamics.PeriodicPts.Defs
import SaveRam.Proofs.Search.Course

/-!
# Rounds that end on a cycle

A round ends when the digest of ten bytes is again what it was.  That the digest
came back does not mean that the machine did.  But if the probe closes a round
with the memory and the carried nibble that it began with, the passes that the
round leaves out would only repeat the ones it made, since a pass looks at
nothing else (`Machine.state_after`).

`Machine.state_after_of_cycle` takes a pass back to one of the passes of the
cycle.  The result is `Search.cycle_recorded`: a round that ends on a cycle has
recorded every jump that more passes could have shown.
-/

namespace SaveRam

/-! ## Passes on a cycle -/

namespace Machine

/-- On a cycle of `n` passes every later pass repeats one of the first `n`. -/
theorem state_after_of_cycle {m : Machine} {n : Nat} (h : (m.after n).state = m.state) {j : Nat}
    (hj : 1 ≤ j) : (m.after j).state = (m.after ((j - 1) % n + 1)).state := by
  have hperiodic : Function.IsPeriodicPt m.program.sound.effect n m.state := by
    show m.program.sound.effect^[n] m.state = m.state
    rw [← state_after, h]
  obtain ⟨k, rfl⟩ := Nat.exists_eq_add_of_le' hj
  rw [Nat.add_sub_cancel, state_after, state_after, Function.iterate_succ_apply',
    Function.iterate_succ_apply', hperiodic.iterate_mod_apply]

end Machine

namespace Search

/-! ## Nothing is lost -/

/-- A round of a successful run that comes back to its start loses no jump.
Its digest is back as well, so the round is over.  The passes that it could have
gone on with, were the digests not compared, repeat those that it made, and a
jump that one of them would show is in the report under the pass that it
repeats; pass number `N i` itself is among them. -/
theorem cycle_recorded {s s' : Search} {t : Tally} (hrun : s.run = (s', .ok t))
    {S : Nat → Machine} {P : Nat → Nat → Machine} {N : Nat → Nat} (hcourse : s.Course S P N)
    {i : Nat} (hi : i < s.bounds.rounds.toNat) (hcycle : (P i (N i)).state = (P i 0).state) :
    (P i (N i)).memory.digest = (S i).memory.digest ∧
      ∀ j, 1 ≤ j →
        (P i j).state = (P i ((j - 1) % N i + 1)).state ∧
        ∀ jump, (P i j).memory.window.jump? = some jump →
          ⟨(P i j).memory.window, i, (j - 1) % N i + 1, jump.position, jump.address⟩ ∈
            t.report.toList := by
  refine ⟨?_, fun j hj => ?_⟩
  · rw [← hcourse.enter_memory]
    exact congrArg (fun state => state.memory.digest) hcycle
  · have hrepeat : (P i j).state = (P i ((j - 1) % N i + 1)).state := by
      rw [hcourse.probe_eq i (N i)] at hcycle
      rw [hcourse.probe_eq i j, hcourse.probe_eq i (_ + 1)]
      exact Machine.state_after_of_cycle hcycle hj
    refine ⟨hrepeat, fun jump hjump => ?_⟩
    have hwindow : (P i j).memory.window = (P i ((j - 1) % N i + 1)).memory.window :=
      congrArg (fun state => state.memory.window) hrepeat
    have hpass : (j - 1) % N i < N i := Nat.mod_lt _ (hcourse.bounds i).1
    rw [hcourse.mem_report hrun]
    refine ⟨i, hi, (j - 1) % N i + 1, ⟨by omega, hpass⟩, ?_⟩
    rw [← hwindow, Tally.match?, hjump]
    rfl

/-- The halves of the first byte of the window are exchanged. -/
theorem effect_swap_first (m : Memory) (byte : UInt8) (carried : Nibble) :
    Program.effect [⟨2, 0xA7D0, 0⟩] ⟨m.set (Window.cell 0) byte, carried⟩ =
      ⟨m.set (Window.cell 0) (swapNibbles byte), carried⟩ := by
  show State.mk ((m.set (Window.cell 0) byte).set (Window.cell 0)
    (swapNibbles ((m.set (Window.cell 0) byte).get (Window.cell 0)))) carried = _
  rw [Memory.get_set_self, Memory.set_set]

/-- A probe that exchanges the halves of a byte is back after two passes.  The
fifth pass would show the jump that the first one showed. -/
theorem cycle_recorded_swap :
    let s : Search := .start (.start (Memory.blank.set (Window.cell 0) 0x3C) [])
      [⟨2, 0xA7D0, 0⟩] ⟨1, 5, by decide⟩
    ∃ s' t S P N, s.run = (s', .ok t) ∧ s.Course S P N ∧ N 0 = 2 ∧
      (P 0 2).state = (P 0 0).state ∧ (P 0 5).state = (P 0 1).state ∧
      ⟨(P 0 5).memory.window, 0, 1, 0, 0⟩ ∈ t.report.toList := by
  intro s
  have hwf : s.WellFormed := ⟨by decide, by decide⟩
  have hrun := run_of_wellFormed hwf
  obtain ⟨S, P, N, hcourse⟩ : ∃ S P N, s.Course S P N := ⟨_, _, _, s.course_atRound⟩
  have hwindow (byte : UInt8) :
      (Memory.blank.set (Window.cell 0) byte).window = (Vector.replicate 16 0).set 0 byte := by
    rw [Memory.window_set_cell, Memory.window_blank]
    rfl
  have hseed : (S 0).memory = Memory.blank.set (Window.cell 0) 0x3C := by
    rw [hcourse.seed_zero]
    rfl
  have hstate (j : Nat) : (P 0 j).state =
      (Program.effect [⟨2, 0xA7D0, 0⟩])^[j] ⟨Memory.blank.set (Window.cell 0) 0x3C, 0⟩ := by
    rw [hcourse.probe_eq, Machine.state_after, hcourse.enter_zero, hseed]
    exact congrArg (fun p => (Program.effect p)^[j] _) (Program.sound_of_wellFormed hwf.2)
  have hone : (P 0 1).state = ⟨Memory.blank.set (Window.cell 0) 0xC3, 0⟩ := by
    rw [hstate, Function.iterate_one, effect_swap_first]
    rfl
  have htwo : (P 0 2).state = (P 0 0).state := by
    rw [hstate, hstate, Function.iterate_succ_apply, Function.iterate_one, effect_swap_first,
      effect_swap_first]
    rfl
  -- The first pass leaves another digest and the second one brings it back.
  have hlow : N 0 ≠ 1 := by
    intro hN
    have hreturn := hcourse.return_or_last 0
    rw [hN, hseed, Machine.memory, hone, Memory.digest, Memory.digest, hwindow, hwindow] at hreturn
    revert hreturn
    decide
  have hhigh : N 0 ≤ 2 := by
    by_contra hlt
    refine hcourse.no_return 0 2 (by decide) (by omega) ?_
    rw [← hcourse.enter_memory, Machine.memory, htwo]
    rfl
  have hN : N 0 = 2 := by
    have hbound := (hcourse.bounds 0).1
    omega
  have hcycle : (P 0 (N 0)).state = (P 0 0).state := by rw [hN, htwo]
  obtain ⟨hrepeat, hjump⟩ := (cycle_recorded hrun hcourse (by decide) hcycle).2 5 (by decide)
  rw [hN] at hrepeat hjump
  refine ⟨_, _, S, P, N, hrun, hcourse, hN, htwo, hrepeat, hjump ⟨0, 0⟩ ?_⟩
  rw [Machine.memory, hrepeat, hone, hwindow]
  decide

end Search

end SaveRam
