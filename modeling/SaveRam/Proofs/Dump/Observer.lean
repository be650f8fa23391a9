import SaveRam.Journal.Dump
import SaveRam.Proofs.Dump.Windows

/-!
# What a dump does, whoever looks on

A dump tells an observer of its passes, and it does the same whoever looks on
(`Machine.dumpWith_rel`).  So the journal of a dump does not change the dump
(`Machine.dumpNoted_eq`).

Beside its windows a dump that there is room for is a run (`Machine.dump_eq_run`).
-/

namespace SaveRam.Machine

variable {σ τ : Type}

/-- Two observers of the passes of a dump.  The induction is on the passes that
remain. -/
theorem dumpFrom_rel (see : σ → Dump.Event → σ) (see' : τ → Dump.Event → τ)
    (remaining index : Nat) (m : Machine) (windows : Array Window) (a : σ) (b : τ) :
    let x := dumpFrom see remaining index m windows a
    let y := dumpFrom see' remaining index m windows b
    x.1 = y.1 ∧ x.2.2 = y.2.2 := by
  induction remaining generalizing index m windows a b with
  | zero => exact ⟨rfl, rfl⟩
  | succ remaining ih =>
    dsimp only [dumpFrom]
    rcases m.pass with ⟨m, _ | fault⟩
    · exact ih (index + 1) m _ _ _
    · exact ⟨rfl, rfl⟩

/-- Two observers of a dump. -/
theorem dumpWith_rel (see : σ → Dump.Event → σ) (see' : τ → Dump.Event → τ) (n : Nat) (m : Machine)
    (a : σ) (b : τ) :
    let x := m.dumpWith see a n
    let y := m.dumpWith see' b n
    x.1 = y.1 ∧ x.2.2 = y.2.2 := by
  unfold dumpWith
  split
  · exact dumpFrom_rel see see' n 0 m _ a b
  · exact ⟨rfl, rfl⟩

/-- The journal of a dump changes neither the machine nor the windows. -/
theorem dumpNoted_eq (threshold : Threshold) (n : Nat) (m : Machine) :
    (m.dumpNoted threshold n).1 = (m.dump n).1 ∧ (m.dumpNoted threshold n).2.2 = (m.dump n).2 :=
  dumpWith_rel (fun (journal : Array Entry) event => journal ++ event.entries threshold)
    (fun (_ : Unit) _ => ()) n m #[] ()

/-! ## Dumps and runs -/

variable {m : Machine} {n : Nat}

/-- A dump of a program with a fault ends in its first pass. -/
theorem dump_of_fault {fault : Fault} (h : m.program.fault? = some fault) (hzero : n ≠ 0)
    (hn : Dump.Fits n) : m.dump n = (m.next, .error (.fault fault)) := by
  rw [dump, dumpWith, if_pos hn]
  obtain ⟨n, rfl⟩ := Nat.exists_eq_succ_of_ne_zero hzero
  rw [dumpFrom, pass_of_fault h]

/-- A dump leaves its machine as a run does.  It shows the window before the run and
the windows after its passes, or it ends in the fault of the run. -/
theorem dump_eq_run (m : Machine) (hn : Dump.Fits n) :
    m.dump n = ((m.run n).1,
      match (m.run n).2 with
      | none => .ok (m.windows n)
      | some fault => .error (.fault fault)) := by
  by_cases hzero : n = 0
  · subst hzero
    rw [dump, dumpWith, if_pos hn]
    rfl
  · cases hfault : m.program.fault? with
    | none =>
      have hwf := Program.fault?_eq_none_iff.1 hfault
      rw [run_of_wellFormed hwf, dump_eq_windows hwf hn]
    | some fault =>
      rw [dump_of_fault hfault hzero hn, run_of_fault hfault hzero, pass_of_fault hfault]

/-- A dump that shows its windows had room for them. -/
theorem fits_of_dump {ws : List Window} (h : (m.dump n).2 = .ok ws) : Dump.Fits n := by
  by_contra hn
  rw [dump_of_not_fits hn] at h
  cases h

/-- A dump is given up exactly if there is no room for it. -/
theorem dump_eq_tooLong_iff : (m.dump n).2 = .error .tooLong ↔ ¬ Dump.Fits n := by
  constructor
  · intro h hn
    rw [dump_eq_run m hn] at h
    cases hrun : (m.run n).2 <;> simp [hrun] at h
  · intro hn
    rw [dump_of_not_fits hn]

end SaveRam.Machine
