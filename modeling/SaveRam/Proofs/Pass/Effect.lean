import Mathlib.Data.List.TakeWhile
import Mathlib.Logic.Function.Iterate
import SaveRam.Proofs.Triple.WellFormed

/-!
# What a pass does

A pass is a function on states and a verdict, and the verdict does not depend
on the state.  `Program.effect` is the function: the triples are carried out in
order, and a triple that cannot be carried out changes nothing.
`Program.fault?` is the verdict: the fault of the first ill-formed triple.

`Program.passFrom_eq` joins the two: a pass has the effect of the triples
before the first ill-formed one and ends with its fault.  For machines,
`Machine.next` is the machine as one pass leaves it and `Machine.after` as
several passes leave it.
-/

namespace SaveRam

/-! ## The effect of a program -/

/-- The state after a triple. -/
def Triple.effect (t : Triple) (s : State) : State :=
  match t.decode with
  | .ok i => (s.execute i).1
  | .error _ => s

/-- A triple acts as its instruction on cells, or not at all. -/
theorem Triple.effect_eq (index : Nat) (t : Triple) (s : State) :
    t.effect s =
      match t.resolve index with
      | .ok i => i.apply s
      | .error _ => s := by
  unfold effect resolve State.execute
  cases t.decode with
  | error e => rfl
  | ok i =>
    dsimp only
    cases i.resolve <;> rfl

namespace Program

/-- The state after the triples of a program, carried out in order. -/
def effect (p : Program) (s : State) : State := p.foldl (fun s t => t.effect s) s

@[simp] theorem effect_nil (s : State) : effect [] s = s := rfl

@[simp] theorem effect_cons (t : Triple) (p : Program) (s : State) :
    effect (t :: p) s = effect p (t.effect s) := rfl

/-! ## The first ill-formed triple -/

/-- Whether every triple of a program can be carried out. -/
def WellFormed (p : Program) : Prop := ∀ t ∈ p, t.WellFormed

instance (p : Program) : Decidable p.WellFormed := inferInstanceAs (Decidable (∀ t ∈ p, _))

/-- The triples before the first ill-formed one. -/
def sound (p : Program) : Program := p.takeWhile fun t => t.WellFormed

/-- The fault of the first ill-formed triple when the first triple stands at
position `index`. -/
def faultFrom (index : Nat) (p : Program) : Option Fault :=
  (p.zipIdx index).findSome? fun (t, i) => if t.WellFormed then none else some (t.faultAt i)

/-- The fault of the first ill-formed triple. -/
def fault? (p : Program) : Option Fault := p.faultFrom 0

theorem faultFrom_nil (index : Nat) : faultFrom index [] = none := rfl

theorem faultFrom_cons (index : Nat) (t : Triple) (p : Program) :
    faultFrom index (t :: p) =
      if t.WellFormed then faultFrom (index + 1) p else some (t.faultAt index) := by
  unfold faultFrom
  rw [List.zipIdx_cons, List.findSome?_cons]
  split <;> simp_all

theorem sound_cons (t : Triple) (p : Program) :
    sound (t :: p) = if t.WellFormed then t :: sound p else [] := by
  unfold sound
  rw [List.takeWhile_cons]
  simp only [decide_eq_true_eq]

/-- A program has no fault exactly when it is well-formed. -/
theorem faultFrom_eq_none_iff (index : Nat) (p : Program) :
    p.faultFrom index = none ↔ p.WellFormed := by
  induction p generalizing index with
  | nil => simp [faultFrom_nil, WellFormed]
  | cons t p ih =>
    rw [faultFrom_cons]
    unfold WellFormed at ih ⊢
    rw [List.forall_mem_cons]
    split
    · rename_i ht
      rw [ih, and_iff_right ht]
    · rename_i ht
      simp [ht]

theorem fault?_eq_none_iff {p : Program} : p.fault? = none ↔ p.WellFormed :=
  faultFrom_eq_none_iff 0 p

/-- Nothing stands behind the well-formed part of a well-formed program. -/
theorem sound_of_wellFormed {p : Program} (h : p.WellFormed) : p.sound = p :=
  List.takeWhile_eq_self_iff.2 fun t ht => decide_eq_true (h t ht)

/-! ## Passes -/

/-- One step of a pass: the next triple is carried out, or the pass ends. -/
theorem passFrom_cons (index : Nat) (t : Triple) (p : Program) (s : State) :
    passFrom index (t :: p) s =
      match t.resolve index with
      | .ok _ => p.passFrom (index + 1) (t.effect s)
      | .error fault => (s, some fault) := by
  rw [Triple.effect_eq index, passFrom]
  unfold Triple.resolve State.execute
  cases t.decode with
  | error e => rfl
  | ok i =>
    dsimp only
    cases i.resolve <;> rfl

/-- A pass has the effect of the triples before the first ill-formed one, and
it ends with the fault of that triple. -/
theorem passFrom_eq (index : Nat) (p : Program) (s : State) :
    p.passFrom index s = (p.sound.effect s, p.faultFrom index) := by
  induction p generalizing index s with
  | nil => rfl
  | cons t p ih =>
    rw [passFrom_cons, faultFrom_cons, sound_cons]
    -- The triple decides by itself whether the pass goes on; the rest of the
    -- program meets the state that it leaves.
    rcases t.resolve_cases index with ⟨ht, i, hi⟩ | ⟨ht, hfault⟩
    · rw [hi, if_pos ht, if_pos ht, effect_cons]
      exact ih (index + 1) (t.effect s)
    · rw [hfault, if_neg ht, if_neg ht, effect_nil]

/-- The pass of a whole program. -/
theorem pass_eq (p : Program) (s : State) : p.pass s = (p.sound.effect s, p.fault?) :=
  passFrom_eq 0 p s

/-- A program gets through one pass exactly when it is well-formed, and then it
gets through every pass. -/
theorem exists_pass_iff {p : Program} : (∃ s, (p.pass s).2 = none) ↔ p.WellFormed := by
  simp only [pass_eq, exists_const, fault?_eq_none_iff]

end Program

/-! ## Machines -/

namespace Machine

/-- The machine as one pass leaves it. -/
def next (m : Machine) : Machine := m.pass.1

/-- The machine as `n` passes leave it. -/
def after (n : Nat) (m : Machine) : Machine := next^[n] m

@[simp] theorem after_zero (m : Machine) : m.after 0 = m := rfl

theorem after_succ (n : Nat) (m : Machine) : m.after (n + 1) = m.next.after n := rfl

theorem after_succ' (n : Nat) (m : Machine) : m.after (n + 1) = (m.after n).next :=
  Function.iterate_succ_apply' next n m

theorem after_add (k n : Nat) (m : Machine) : m.after (k + n) = (m.after k).after n := by
  rw [after, after, after, Nat.add_comm, Function.iterate_add_apply]

/-- One pass of a machine in terms of its program. -/
theorem pass_eq (m : Machine) :
    m.pass =
      (⟨m.program.sound.effect m.state, m.program,
        if m.program.fault? = none then m.passes + 1 else m.passes⟩, m.program.fault?) := by
  obtain ⟨state, program, passes⟩ := m
  simp only [pass, Program.pass_eq]
  cases program.fault? <;> rfl

/-- Whether a pass fails, and how, is written in the program. -/
theorem pass_eq_next (m : Machine) : m.pass = (m.next, m.program.fault?) := by
  rw [next, pass_eq]

theorem pass_of_wellFormed {m : Machine} (h : m.program.WellFormed) :
    m.pass = (m.next, none) := by
  rw [pass_eq_next, Program.fault?_eq_none_iff.2 h]

theorem pass_of_fault {m : Machine} {fault : Fault} (h : m.program.fault? = some fault) :
    m.pass = (m.next, some fault) := by
  rw [pass_eq_next, h]

theorem next_of_wellFormed {m : Machine} (h : m.program.WellFormed) :
    m.next = ⟨m.program.effect m.state, m.program, m.passes + 1⟩ := by
  rw [next, pass_eq, Program.sound_of_wellFormed h, if_pos (Program.fault?_eq_none_iff.2 h)]

/-- A pass that fails is not counted. -/
theorem next_of_fault {m : Machine} {fault : Fault} (h : m.program.fault? = some fault) :
    m.next = ⟨m.program.sound.effect m.state, m.program, m.passes⟩ := by
  have hne : m.program.fault? ≠ none := by rw [h]; exact Option.some_ne_none fault
  rw [next, pass_eq, if_neg hne]

@[simp] theorem next_program (m : Machine) : m.next.program = m.program := by
  rw [next, pass_eq]

@[simp] theorem after_program (n : Nat) (m : Machine) : (m.after n).program = m.program := by
  induction n generalizing m with
  | zero => rfl
  | succ n ih => rw [after_succ, ih, next_program]

/-- The state after some passes comes from the state before them and the
program alone. -/
theorem state_after (n : Nat) (m : Machine) :
    (m.after n).state = m.program.sound.effect^[n] m.state := by
  induction n with
  | zero => rfl
  | succ n ih =>
    rw [after_succ', next, pass_eq, after_program, ih, Function.iterate_succ_apply']

/-- The passes of a well-formed program apply its effect again and again. -/
theorem after_of_wellFormed {m : Machine} (h : m.program.WellFormed) (n : Nat) :
    m.after n = ⟨m.program.effect^[n] m.state, m.program, m.passes + n⟩ := by
  induction n with
  | zero => rfl
  | succ n ih =>
    have hprogram : (m.after n).program.WellFormed := by rw [after_program]; exact h
    rw [after_succ', next_of_wellFormed hprogram, ih, Function.iterate_succ_apply',
      Nat.add_assoc]

theorem run_of_wellFormed {m : Machine} (h : m.program.WellFormed) (n : Nat) :
    m.run n = (m.after n, none) := by
  induction n generalizing m with
  | zero => rfl
  | succ n ih =>
    rw [run, pass_of_wellFormed h]
    exact ih (by rw [next_program]; exact h)

/-- A run of a program that is not well-formed is over in its first pass. -/
theorem run_of_fault {m : Machine} {fault : Fault} (h : m.program.fault? = some fault)
    {n : Nat} (hn : n ≠ 0) : m.run n = m.pass := by
  cases n with
  | zero => exact absurd rfl hn
  | succ n => rw [run, pass_of_fault h]

/-- A run succeeds exactly when there is no pass or the program is well-formed. -/
theorem run_eq_none_iff {m : Machine} {n : Nat} :
    (m.run n).2 = none ↔ n = 0 ∨ m.program.WellFormed := by
  constructor
  · intro h
    by_cases hn : n = 0
    · exact .inl hn
    · right
      rw [← Program.fault?_eq_none_iff, Option.eq_none_iff_forall_ne_some]
      intro fault hfault
      rw [run_of_fault hfault hn, pass_of_fault hfault] at h
      cases h
  · rintro (rfl | h)
    · rfl
    · rw [run_of_wellFormed h]

/-- How many passes a run makes and how it ends is written in the program.  A run
that succeeds makes all its passes. -/
theorem exists_run_eq (p : Program) (n : Nat) :
    ∃ (k : Nat) (fault? : Option Fault), (fault? = none → k = n) ∧
      ∀ m : Machine, m.program = p → m.run n = (m.after k, fault?) := by
  by_cases hn : n = 0
  · refine ⟨n, none, fun _ => rfl, fun m _ => ?_⟩
    rw [hn, run, after_zero]
  · cases hfault : p.fault? with
    | none =>
      refine ⟨n, none, fun _ => rfl, fun m hm => run_of_wellFormed ?_ n⟩
      rw [hm]
      exact Program.fault?_eq_none_iff.1 hfault
    | some fault =>
      refine ⟨1, some fault, nofun, fun m hm => ?_⟩
      rw [← hm] at hfault
      rw [run_of_fault hfault hn, pass_of_fault hfault, after_succ, after_zero]

end Machine

end SaveRam
