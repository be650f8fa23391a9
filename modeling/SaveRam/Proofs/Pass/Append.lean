import SaveRam.Proofs.Pass.Effect

/-!
# Passes over joined programs

A pass over `p ++ q` is a pass over `p` and, unless that stops, a pass over `q`.
Nothing happens where the programs meet: all that goes from the one pass to the
other is the state.  What tells the two ways apart is the position that a fault in
`q` reports (`Fault.shift`) and the number of passes that are counted.

`Program.passFrom_append` is the induction over `p`.  The runs of a machine compose
in the same way in the number of passes (`Machine.run_add`).
-/

namespace SaveRam

/-- The fault with its position counted from `offset` triples earlier.  An access
fault has no position. -/
def Fault.shift (offset : Nat) : Fault → Fault
  | .unknownOperation index opcode => .unknownOperation (index + offset) opcode
  | .unmapped address => .unmapped address

namespace Program

theorem effect_append (p q : Program) (s : State) : effect (p ++ q) s = q.effect (p.effect s) :=
  List.foldl_append

/-! ## Positions -/

/-- Where a pass starts to count shows in the position of its fault only. -/
theorem passFrom_shift (index offset : Nat) (p : Program) (s : State) :
    p.passFrom (index + offset) s =
      ((p.passFrom index s).1, (p.passFrom index s).2.map (Fault.shift offset)) := by
  induction p generalizing index s with
  | nil => rfl
  | cons t p ih =>
    rw [passFrom, passFrom]
    cases t.decode with
    | error e => rfl
    | ok i =>
      dsimp only
      rcases s.execute i with ⟨s, _ | e⟩
      · rw [Nat.add_right_comm]
        exact ih (index + 1) s
      · rfl

/-- The pass of a program that stands behind `offset` other triples. -/
theorem passFrom_eq_pass (offset : Nat) (p : Program) (s : State) :
    p.passFrom offset s = ((p.pass s).1, (p.pass s).2.map (Fault.shift offset)) := by
  have h := passFrom_shift 0 offset p s
  rwa [Nat.zero_add] at h

/-! ## Joined programs -/

/-- The second program goes on where the first one ends, in state and position. -/
theorem passFrom_append (index : Nat) (p q : Program) (s : State) :
    (p ++ q).passFrom index s =
      match p.passFrom index s with
      | (s, none) => q.passFrom (index + p.length) s
      | (s, some fault) => (s, some fault) := by
  induction p generalizing index s with
  | nil => rfl
  | cons t p ih =>
    rw [List.cons_append, passFrom, passFrom]
    cases t.decode with
    | error e => rfl
    | ok i =>
      dsimp only
      rcases s.execute i with ⟨s, _ | e⟩
      · dsimp only
        rw [ih, List.length_cons, Nat.add_right_comm, Nat.add_assoc]
      · rfl

theorem pass_append_of_fault {p : Program} {s : State} {fault : Fault}
    (h : (p.pass s).2 = some fault) (q : Program) : (p ++ q).pass s = p.pass s := by
  unfold pass at h ⊢
  rw [passFrom_append]
  rcases hp : p.passFrom 0 s with ⟨s', _ | fault'⟩
  · rw [hp] at h
    cases h
  · rfl

theorem pass_append_of_success {p : Program} {s : State} (h : (p.pass s).2 = none)
    (q : Program) :
    (p ++ q).pass s =
      ((q.pass (p.pass s).1).1, (q.pass (p.pass s).1).2.map (Fault.shift p.length)) := by
  unfold pass at h
  rw [← passFrom_eq_pass, pass, pass, passFrom_append]
  rcases hp : p.passFrom 0 s with ⟨s', _ | fault⟩
  · dsimp only
    rw [Nat.zero_add]
  · rw [hp] at h
    cases h

end Program

/-! ## Machines -/

namespace Machine

/-- A run goes on where an earlier one ended, unless that one stopped. -/
theorem run_add (m : Machine) (k n : Nat) :
    m.run (k + n) =
      match m.run k with
      | (m, none) => m.run n
      | (m, some fault) => (m, some fault) := by
  induction k generalizing m with
  | zero => rw [Nat.zero_add, run]
  | succ k ih =>
    rw [Nat.add_right_comm, run, run]
    rcases m.pass with ⟨m, _ | fault⟩
    · exact ih m
    · rfl

/-- A pass ends as its program makes it end. -/
theorem verdict_withProgram (m : Machine) (p : Program) :
    (m.withProgram p).pass.2 = (p.pass m.state).2 := by
  rw [pass_eq_next, Program.pass_eq]
  rfl

/-- A pass that succeeds is counted. -/
theorem pass_withProgram_of_success {m : Machine} {p : Program}
    (h : (p.pass m.state).2 = none) :
    (m.withProgram p).pass = (⟨(p.pass m.state).1, p, m.passes + 1⟩, none) := by
  rcases hp : p.pass m.state with ⟨s, _ | fault⟩
  · simp only [withProgram, pass, hp]
  · rw [hp] at h
    cases h

theorem pass_withProgram_of_fault {m : Machine} {p : Program} {fault : Fault}
    (h : (p.pass m.state).2 = some fault) :
    (m.withProgram p).pass = (⟨(p.pass m.state).1, p, m.passes⟩, some fault) := by
  rcases hp : p.pass m.state with ⟨s, _ | fault'⟩
  · rw [hp] at h
    cases h
  · rw [hp] at h
    cases h
    simp only [withProgram, pass, hp]

/-- Passes over joined programs and runs of several passes compose.  If the first
program stops, the joined one stops with the same fault and leaves the same behind.
Otherwise the joined program does in one pass what the two do in two, and a fault
of the second one keeps its cause and gets its position in the joined program. -/
theorem passes_compose (m : Machine) (p q : Program) :
    (∀ fault, (m.withProgram p).pass.2 = some fault →
      (m.withProgram (p ++ q)).pass =
        ((m.withProgram p).pass.1.withProgram (p ++ q), some fault)) ∧
    ((m.withProgram p).pass.2 = none →
      let first := (m.withProgram p).pass.1
      let second := (first.withProgram q).pass
      let joined := (m.withProgram (p ++ q)).pass
      joined.1.memory = second.1.memory ∧ joined.1.carried = second.1.carried ∧
        joined.2 = second.2.map (Fault.shift p.length) ∧
        joined.1.passes + 1 = second.1.passes) ∧
    ∀ k n : Nat,
      ((m.run k).2 = none → m.run (k + n) = (m.run k).1.run n) ∧
      (∀ fault, (m.run k).2 = some fault → m.run (k + n) = m.run k) := by
  refine ⟨fun fault hfault => ?_, fun hsuccess => ?_,
    fun k n => ⟨fun hrun => ?_, fun fault hrun => ?_⟩⟩
  · rw [verdict_withProgram] at hfault
    have hjoined := Program.pass_append_of_fault hfault q
    rw [pass_withProgram_of_fault hfault, pass_withProgram_of_fault (hjoined ▸ hfault), hjoined]
    rfl
  · rw [verdict_withProgram] at hsuccess
    have hjoined := Program.pass_append_of_success hsuccess q
    rw [pass_withProgram_of_success hsuccess]
    intro first second joined
    -- The second program decides how both ways end.
    cases hq : (q.pass first.state).2 with
    | none =>
      have hverdict : ((p ++ q).pass m.state).2 = none := by rw [hjoined, hq]; rfl
      have hsecond : second = _ := pass_withProgram_of_success hq
      have hpass : joined = _ := pass_withProgram_of_success hverdict
      rw [hsecond, hpass, hjoined]
      exact ⟨rfl, rfl, rfl, rfl⟩
    | some fault =>
      have hverdict : ((p ++ q).pass m.state).2 = some (fault.shift p.length) := by
        rw [hjoined, hq]
        rfl
      have hsecond : second = _ := pass_withProgram_of_fault hq
      have hpass : joined = _ := pass_withProgram_of_fault hverdict
      rw [hsecond, hpass, hjoined]
      exact ⟨rfl, rfl, rfl, rfl⟩
  · rw [run_add]
    rcases hk : m.run k with ⟨m', _ | fault⟩
    · rfl
    · rw [hk] at hrun
      cases hrun
  · rw [run_add]
    rcases hk : m.run k with ⟨m', _ | fault'⟩
    · rw [hk] at hrun
      cases hrun
    · rfl

/-- A fill and a diff, and behind them a reversal and a triple with an unknown
operation: the second program reports its own position, the joined one that position
moved by two.  A first program that stops hides the second one. -/
theorem passes_compose_unknown :
    let m : Machine := ⟨⟨.ofBytes [0x5C, 7], 0x6⟩, [], 7⟩
    let p : Program := [⟨1, 0xA001, 0x3C⟩, ⟨3, 0xA000, 1⟩]
    let q : Program := [⟨4, 0xA001, 0⟩, ⟨9, 0, 0⟩, ⟨1, 0xA000, 0⟩]
    let second := ((m.withProgram p).pass.1.withProgram q).pass
    let joined := (m.withProgram (p ++ q)).pass
    second.2 = some (.unknownOperation 1 9) ∧ joined.2 = some (.unknownOperation 3 9) ∧
      joined.1.memory = second.1.memory ∧ joined.1.passes + 1 = second.1.passes ∧
      (m.withProgram (q ++ p)).pass.2 = some (.unknownOperation 1 9) := by
  intro m p q second joined
  have hp : (m.withProgram p).pass.2 = none := by
    rw [pass_eq_next]
    exact Program.fault?_eq_none_iff.2 (by decide)
  have hq (m : Machine) : (m.withProgram q).pass.2 = some (.unknownOperation 1 9) := by
    rw [pass_eq_next]
    rfl
  obtain ⟨-, hcompose, -⟩ := passes_compose m p q
  obtain ⟨hmemory, -, hverdict, hpasses⟩ := hcompose hp
  obtain ⟨hstop, -, -⟩ := passes_compose m q p
  refine ⟨hq _, ?_, hmemory, hpasses, ?_⟩
  · rw [hverdict, hq]
    rfl
  · rw [hstop _ (hq m)]

end Machine

end SaveRam
