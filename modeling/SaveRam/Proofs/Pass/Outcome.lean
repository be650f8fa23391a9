import SaveRam.Proofs.Pass.Effect

/-!
# How a run ends

Whether a run fails, with which fault, and what it leaves behind are fixed by
the program.  `Program.sound_of_first` and `Program.faultFrom_of_first` find the
first ill-formed triple by its position, and `Machine.run_outcome` is the
result: no memory and no carried nibble turns a run that succeeds into one
that fails.
-/

namespace SaveRam

namespace Program

/-- The well-formed part of a program ends at the first ill-formed triple. -/
theorem sound_of_first {p : Program} {k : Nat} (hk : k < p.length)
    (hbefore : ∀ j (hj : j < k), p[j].WellFormed) (hfirst : ¬ p[k].WellFormed) :
    p.sound = p.take k := by
  induction p generalizing k with
  | nil => simp at hk
  | cons t p ih =>
    cases k with
    | zero =>
      have ht : ¬ t.WellFormed := hfirst
      rw [sound_cons, if_neg ht, List.take_zero]
    | succ k =>
      have ht : t.WellFormed := hbefore 0 (by omega)
      have hk' : k < p.length := Nat.lt_of_succ_lt_succ hk
      have hbefore' : ∀ j (hj : j < k), p[j].WellFormed := by
        intro j hj
        exact hbefore (j + 1) (by omega)
      rw [sound_cons, if_pos ht, List.take_succ_cons, ih hk' hbefore' hfirst]

/-- The fault of a program is the fault of its first ill-formed triple. -/
theorem faultFrom_of_first {p : Program} (index : Nat) {k : Nat} (hk : k < p.length)
    (hbefore : ∀ j (hj : j < k), p[j].WellFormed) (hfirst : ¬ p[k].WellFormed) :
    p.faultFrom index = some (p[k].faultAt (index + k)) := by
  induction p generalizing index k with
  | nil => simp at hk
  | cons t p ih =>
    cases k with
    | zero =>
      have ht : ¬ t.WellFormed := hfirst
      rw [faultFrom_cons, if_neg ht]
      rfl
    | succ k =>
      have ht : t.WellFormed := hbefore 0 (by omega)
      have hk' : k < p.length := Nat.lt_of_succ_lt_succ hk
      have hbefore' : ∀ j (hj : j < k), p[j].WellFormed := by
        intro j hj
        exact hbefore (j + 1) (by omega)
      rw [faultFrom_cons, if_pos ht, ih (index + 1) hk' hbefore' hfirst]
      simp only [List.getElem_cons_succ, Nat.add_assoc, Nat.add_comm 1 k]

end Program

namespace Machine

/-- A run of a well-formed program makes all its passes.  Any other program
ends every run of at least one pass in the first pass, with the fault of its
first ill-formed triple and the effect of the triples before it. -/
theorem run_outcome (m : Machine) (n : Nat) :
    ((∀ t ∈ m.program, t.WellFormed) →
      (m.run n).2 = none ∧ (m.run n).1.passes = m.passes + n) ∧
    ∀ (k : Nat) (hk : k < m.program.length),
      (∀ j (hj : j < k), m.program[j].WellFormed) → ¬ m.program[k].WellFormed →
      m.pass =
        (⟨Program.effect (m.program.take k) m.state, m.program, m.passes⟩,
          some (m.program[k].faultAt k)) ∧
      (1 ≤ n → m.run n = m.pass) := by
  constructor
  · intro h
    rw [run_of_wellFormed h, after_of_wellFormed h]
    exact ⟨rfl, rfl⟩
  · intro k hk hbefore hfirst
    have hfault : m.program.fault? = some (m.program[k].faultAt k) := by
      rw [Program.fault?, Program.faultFrom_of_first 0 hk hbefore hfirst, Nat.zero_add]
    refine ⟨?_, fun hn => run_of_fault hfault (Nat.ne_of_gt hn)⟩
    rw [pass_of_fault hfault, next_of_fault hfault, Program.sound_of_first hk hbefore hfirst]

/-- When both places of an exclusive or are unmapped, the source is reported. -/
theorem run_outcome_unmapped_operands :
    let m : Machine :=
      ⟨default, [⟨1, 0xA000, 0x11⟩, ⟨5, 0x9FFF, -0x8000⟩, ⟨9, 0, 0⟩], 7⟩
    Program.WellFormed (m.program.take 1) ∧ ¬ (⟨5, 0x9FFF, -0x8000⟩ : Triple).WellFormed ∧
      m.run 3 =
        (⟨Program.effect (m.program.take 1) m.state, m.program, 7⟩, some (.unmapped 0x8000)) := by
  intro m
  have hfault : Triple.faultAt 1 ⟨5, 0x9FFF, -0x8000⟩ = .unmapped 0x8000 := by decide
  obtain ⟨hpass, hrun⟩ := (run_outcome m 3).2 1 (by decide)
    (fun j hj => by
      obtain rfl : j = 0 := by omega
      show Triple.WellFormed ⟨1, 0xA000, 0x11⟩
      decide)
    (by decide)
  refine ⟨by decide, by decide, ?_⟩
  rw [hrun (by decide), hpass, ← hfault]
  rfl

end Machine

end SaveRam
