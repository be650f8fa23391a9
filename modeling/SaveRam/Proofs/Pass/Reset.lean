import SaveRam.Proofs.Pass.Footprint

/-!
# Programs that reset before they diff

The carried nibble reaches memory through a diff only.  In a program whose
every diff is preceded by a triple that clears the nibble
(`Program.ResetsFirst`) nothing is left of the nibble that a pass starts with.

`Triple.effect_of_resets` and `Triple.effect_of_keeps` say what triples other
than a diff do with the nibble: they clear it, or they neither read nor change
it.  From these, `Program.ResetsFirst.exists_effect` describes a whole pass: the
memory that it leaves is the same for every nibble, and so is the nibble if the
program has a reset.

`Program.ResetsFirst.exists_iterate_effect` says the same of several passes, and
`Machine.exists_state_after` of a machine.  `Machine.run_of_resetsFirst` compares two
runs that start with different nibbles.
-/

namespace SaveRam

/-! ## Triples and the carried nibble -/

namespace Triple

/-- Whether the triple is a diff. -/
def diffs (t : Triple) : Bool := t.decode matches .ok (.diff ..)

/-- Whether the triple clears the carried nibble. -/
def resets (t : Triple) : Bool := t.decode matches .ok .init | .ok .reset

variable {t : Triple}

theorem effect_of_resets (h : t.resets) (s : State) : t.effect s = ⟨s.memory, 0⟩ := by
  unfold effect State.execute
  cases hdecode : t.decode with
  | error e => simp [resets, hdecode] at h
  | ok i =>
    cases i with
    | init | reset => rfl
    | _ => simp [resets, hdecode] at h

/-- A triple that is neither a diff nor a reset works on the memory alone. -/
theorem effect_of_keeps (hdiff : ¬ t.diffs) (hreset : ¬ t.resets) (m : Memory) :
    ∃ m' : Memory, ∀ c, t.effect ⟨m, c⟩ = ⟨m', c⟩ := by
  unfold effect State.execute
  cases hdecode : t.decode with
  | error e => exact ⟨m, fun c => rfl⟩
  | ok i =>
    dsimp only
    cases hresolve : i.resolve with
    | error e => exact ⟨m, fun c => rfl⟩
    | ok j =>
      cases i with
      | init | reset => simp [resets, hdecode] at hreset
      | diff => simp [diffs, hdecode] at hdiff
      | fill | swap | reverse | bitset =>
        obtain ⟨d, -, hd⟩ := Instruction.locate_bind hresolve
        cases hd
        exact ⟨_, fun c => rfl⟩
      | xor | copy =>
        obtain ⟨s, -, hs⟩ := Instruction.locate_bind hresolve
        obtain ⟨d, -, hd⟩ := Instruction.locate_bind hs
        cases hd
        exact ⟨_, fun c => rfl⟩

end Triple

/-! ## Programs -/

namespace Program

/-- Every diff of the program has a reset before it. -/
def ResetsFirst (p : Program) : Prop :=
  ∀ k (hk : k < p.length), p[k].diffs → ∃ t ∈ p.take k, t.resets

instance (p : Program) : Decidable p.ResetsFirst :=
  inferInstanceAs (Decidable (∀ k (hk : k < p.length), p[k].diffs → ∃ t ∈ p.take k, t.resets))

namespace ResetsFirst

variable {t : Triple} {p : Program}

theorem head (h : ResetsFirst (t :: p)) : ¬ t.diffs := by
  intro hdiff
  obtain ⟨u, hu, -⟩ := h 0 (by simp) hdiff
  cases hu

/-- Behind a triple that is no reset the rest of the program has its own
resets. -/
theorem tail (h : ResetsFirst (t :: p)) (ht : ¬ t.resets) : p.ResetsFirst := by
  intro k hk hdiff
  obtain ⟨u, hu, hreset⟩ := h (k + 1) (Nat.succ_lt_succ hk) hdiff
  rw [List.take_succ_cons, List.mem_cons] at hu
  rcases hu with rfl | hu
  · exact absurd hreset ht
  · exact ⟨u, hu, hreset⟩

theorem of_append {q : Program} (h : ResetsFirst (p ++ q)) : p.ResetsFirst := by
  intro k hk hdiff
  have hlength : k < (p ++ q).length := by
    rw [List.length_append]
    omega
  have hdiff' : (p ++ q)[k].diffs := by
    rw [List.getElem_append_left hk]
    exact hdiff
  have hreset := h k hlength hdiff'
  rw [List.take_append_of_le_length (Nat.le_of_lt hk)] at hreset
  exact hreset

/-- The part of a program that is carried out resets first if the program does. -/
theorem sound (h : p.ResetsFirst) : p.sound.ResetsFirst := by
  obtain ⟨rest, hrest⟩ : p.sound <+: p := List.takeWhile_prefix _
  rw [← hrest] at h
  exact h.of_append

/-- What a program that resets first leaves behind: the same memory for every
nibble, and the same nibble if it has a reset at all. -/
theorem exists_effect (h : p.ResetsFirst) (m : Memory) :
    ∃ s : State, ∀ c,
      p.effect ⟨m, c⟩ = ⟨s.memory, if p.any Triple.resets then s.carried else c⟩ := by
  induction p generalizing m with
  | nil => exact ⟨⟨m, 0⟩, fun c => rfl⟩
  | cons t p ih =>
    by_cases hreset : t.resets
    · -- Behind the reset the nibble is known.
      refine ⟨effect p ⟨m, 0⟩, fun c => ?_⟩
      rw [effect_cons, Triple.effect_of_resets hreset, List.any_cons, hreset]
      rfl
    · obtain ⟨m', hkeeps⟩ := Triple.effect_of_keeps h.head hreset m
      obtain ⟨s, hs⟩ := ih (h.tail hreset) m'
      refine ⟨s, fun c => ?_⟩
      rw [effect_cons, hkeeps, hs, List.any_cons, Bool.eq_false_iff.2 hreset, Bool.false_or]

/-- What several passes leave behind: the same memory for every nibble, and the same
nibble if there is a pass and the program has a reset. -/
theorem exists_iterate_effect (h : p.ResetsFirst) (m : Memory) (n : Nat) :
    ∃ s : State, ∀ c,
      p.effect^[n] ⟨m, c⟩ =
        ⟨s.memory, if n ≠ 0 ∧ p.any Triple.resets then s.carried else c⟩ := by
  induction n with
  | zero => exact ⟨⟨m, 0⟩, fun c => rfl⟩
  | succ n ih =>
    obtain ⟨s, hs⟩ := ih
    obtain ⟨s', hs'⟩ := h.exists_effect s.memory
    refine ⟨s', fun c => ?_⟩
    rw [Function.iterate_succ_apply', hs, hs']
    by_cases hreset : p.any Triple.resets <;> simp [hreset]

end ResetsFirst

end Program

/-! ## Machines -/

namespace Machine

variable {m n : Machine}

/-- What passes of a program that resets first leave behind.  The nibble that they
start with is still there if they carry out no reset. -/
theorem exists_state_after {p : Program} (h : p.ResetsFirst) (memory : Memory) (k : Nat) :
    ∃ s : State, ∀ m : Machine, m.program = p → m.memory = memory →
      (m.after k).state =
        ⟨s.memory, if k ≠ 0 ∧ p.sound.any Triple.resets then s.carried else m.carried⟩ := by
  obtain ⟨s, hs⟩ := h.sound.exists_iterate_effect memory k
  refine ⟨s, ?_⟩
  rintro m rfl rfl
  rw [state_after]
  exact hs m.carried

/-- Machines with one program that resets first and with the same memory go
through the same memories, whatever nibbles they carry. -/
theorem memory_after_eq (h : m.program.ResetsFirst) (hprogram : m.program = n.program)
    (hmemory : m.memory = n.memory) (k : Nat) : (m.after k).memory = (n.after k).memory := by
  obtain ⟨s, hs⟩ := exists_state_after h m.memory k
  rw [memory, memory, hs m rfl rfl, hs n hprogram.symm hmemory.symm]

/-- Two runs of a program that resets first, from the same memory and with any two
nibbles.  They end in the same way and leave the same memory.  A reset makes the
nibbles the same after the first pass that succeeds; without one both nibbles stay
what they were. -/
theorem run_of_resetsFirst (h : m.program.ResetsFirst) (hprogram : m.program = n.program)
    (hmemory : m.memory = n.memory) (k : Nat) :
    (m.run k).2 = (n.run k).2 ∧ (m.run k).1.memory = (n.run k).1.memory ∧
    ((∃ t ∈ m.program, t.resets) → 1 ≤ k → (m.run k).2 = none →
      (m.run k).1.carried = (n.run k).1.carried) ∧
    ((∀ t ∈ m.program, ¬ t.resets) →
      (m.run k).1.carried = m.carried ∧ (n.run k).1.carried = n.carried) := by
  -- Both runs make the same number of passes.
  obtain ⟨j, fault?, hall, hrun⟩ := exists_run_eq m.program k
  obtain ⟨s, hs⟩ := exists_state_after h m.memory j
  have hm := hs m rfl rfl
  have hn := hs n hprogram.symm hmemory.symm
  rw [hrun m rfl, hrun n hprogram.symm]
  refine ⟨rfl, memory_after_eq h hprogram hmemory j, fun hreset hk hsuccess => ?_, fun hnone => ?_⟩
  · -- A run that succeeds carries out whole passes, so also their resets.
    obtain rfl : j = k := hall hsuccess
    have hwf : m.program.WellFormed := by
      refine (run_eq_none_iff.1 ?_).resolve_left (Nat.ne_of_gt hk)
      rw [hrun m rfl, hsuccess]
    have hsound : m.program.sound.any Triple.resets := by
      rw [Program.sound_of_wellFormed hwf, List.any_eq_true]
      exact hreset
    rw [carried, carried, hm, hn, if_pos ⟨Nat.ne_of_gt hk, hsound⟩,
      if_pos ⟨Nat.ne_of_gt hk, hsound⟩]
  · have hsound : ¬ (j ≠ 0 ∧ m.program.sound.any Triple.resets) := by
      rintro ⟨-, hreset⟩
      obtain ⟨t, ht, hreset⟩ := List.any_eq_true.1 hreset
      exact hnone t (List.takeWhile_subset _ ht) hreset
    rw [if_neg hsound] at hm hn
    constructor
    · rw [carried, hm]
    · rw [carried, hn]

/-- Three passes that diff a byte of the window behind a reset. -/
theorem run_of_resetsFirst_diff :
    let p : Program := [⟨1, 0xA7D0, 0x5C⟩, ⟨8, 0, 0⟩, ⟨3, 0xA7D0, 1⟩]
    let m : Machine := ⟨⟨.ofBytes [3, 7], 0x5⟩, p, 0⟩
    let n : Machine := ⟨⟨.ofBytes [3, 7], 0x8⟩, p, 2⟩
    p.ResetsFirst ∧ (m.run 3).2 = none ∧ (m.run 3).1.memory = (n.run 3).1.memory ∧
      (m.run 3).1.carried = (n.run 3).1.carried := by
  intro p m n
  have hresets : p.ResetsFirst := by decide
  have hsuccess : (m.run 3).2 = none := run_eq_none_iff.2 (.inr (by decide))
  obtain ⟨-, hmemory, hcarried, -⟩ := run_of_resetsFirst (m := m) (n := n) hresets rfl rfl 3
  refine ⟨hresets, hsuccess, hmemory, ?_⟩
  exact hcarried ⟨⟨8, 0, 0⟩, by decide, rfl⟩ (by decide) hsuccess

end Machine

end SaveRam
