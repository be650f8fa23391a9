import SaveRam.Proofs.Nibble.RunningXor
import SaveRam.Proofs.Pass.Frame

/-!
# Where the carried nibble comes from

A machine is used by calls: it makes passes, gets another program, and its memory is
replaced or written to (`Machine.Call`).  A call can fail, and a pass that fails has
carried out a part of its program.  `Machine.history` lists the instructions that were
carried out by a sequence of calls.

* Steps.  `Step.set?` is the nibble that a step of a pass sets, read off the byte that
  the step left in memory, and `Step.carriedThrough` the nibble after several steps.
  `Instruction.carried_apply_eq` is the comparison with one instruction.
* Passes and calls.  `Program.carried_passFrom` is the induction over the program,
  `Machine.carried_run` the one over the passes of a run and
  `Machine.carried_afterCalls` the one over the calls.
* The last diff.  `Step.carriedThrough_of_keeps` and `Step.carriedThrough_of_not_diff`
  evaluate the nibble from the end of the history.

`Machine.carried_origin` is the statement about every machine.
-/

namespace SaveRam

/-! ## Steps -/

/-- The operations that clear the carried nibble. -/
def Opcode.Clears (o : Opcode) : Prop := o = .init ∨ o = .reset

instance (o : Opcode) : Decidable o.Clears := inferInstanceAs (Decidable (_ ∨ _))

namespace Step

/-- The nibble that a step sets: zero if it clears the nibble, and the low half of the
byte that it wrote if it is a diff. -/
def set? (step : Step) : Option Nibble :=
  match step.instruction.opcode with
  | .init | .reset => some 0
  | .diff => step.written.map Nibble.low
  | _ => none

/-- The nibble after some steps. -/
def carriedThrough (carried : Nibble) (steps : List Step) : Nibble :=
  steps.foldl (fun carried step => step.set?.getD carried) carried

theorem carriedThrough_cons (carried : Nibble) (step : Step) (steps : List Step) :
    carriedThrough carried (step :: steps) = carriedThrough (step.set?.getD carried) steps := rfl

theorem carriedThrough_append (carried : Nibble) (steps steps' : List Step) :
    carriedThrough carried (steps ++ steps') =
      carriedThrough (carriedThrough carried steps) steps' :=
  List.foldl_append

end Step

/-- The nibble after an instruction is the one that its step sets, or else the one
before it. -/
theorem Instruction.carried_apply_eq {i : Instruction Address} {j : Instruction Cell}
    (h : i.resolve = .ok j) (s : State) (index : Nat) (carried : Nibble) :
    (j.apply s).carried =
      (Step.set? ⟨index, i, (j.apply s).written? i, carried⟩).getD s.carried := by
  have hkeeps (hop : ¬ i.opcode.SetsCarried) : (j.apply s).carried = s.carried := by
    rw [← (frame_of_resolve h).1] at hop
    exact carried_apply hop s
  cases i with
  | init | reset =>
    cases h
    rfl
  | diff dst inverted =>
    obtain ⟨c, rfl, hc⟩ := locate_bind h
    cases hc
    -- The byte that a diff wrote has the nibble in its low half.
    have hwritten : ((Instruction.diff c inverted).apply s).written? (.diff c.address inverted) =
        some (DiffCode.byte inverted s.carried (s.memory.get c)).1 := by
      simp only [State.written?, destination?, Option.bind_some, Instruction.apply,
        Memory.read_address, Memory.get_set_self]
      rfl
    rw [Step.set?, hwritten]
    exact DiffCode.carried_byte inverted s.carried (s.memory.get c)
  | fill | swap | reverse | xor | copy | bitset =>
    exact hkeeps (by simp [opcode, Opcode.SetsCarried])

/-! ## Passes -/

/-- The nibble after a pass, also after one that fails.  The induction is on the
program. -/
theorem Program.carried_passFrom (index : Nat) (p : Program) (s : State) :
    (p.passFrom index s).1.carried = Step.carriedThrough s.carried (p.stepsFrom index s) := by
  induction p generalizing index s with
  | nil => rfl
  | cons t p ih =>
    rw [passFrom, stepsFrom]
    cases t.decode with
    | error e => rfl
    | ok i =>
      dsimp only
      rcases s.execute_cases i with ⟨-, j, hj, hexecute⟩ | ⟨-, a, -, hexecute⟩
      · rw [hexecute]
        dsimp only
        rw [ih, Step.carriedThrough_cons, ← Instruction.carried_apply_eq hj]
      · rw [hexecute]
        rfl

namespace Machine

theorem carried_pass (m : Machine) : m.pass.1.carried = Step.carriedThrough m.carried m.steps := by
  obtain ⟨state, program, passes⟩ := m
  have hpass : (program.pass state).1.carried = _ := program.carried_passFrom 0 state
  rw [pass]
  generalize program.pass state = result at hpass ⊢
  rcases result with ⟨s, _ | fault⟩ <;> exact hpass

/-- The instructions that a run of at most `n` passes carries out. -/
def runSteps : Nat → Machine → List Step
  | 0, _ => []
  | n + 1, m =>
    match m.pass with
    | (next, none) => m.steps ++ runSteps n next
    | (_, some _) => m.steps

theorem carried_run (n : Nat) (m : Machine) :
    (m.run n).1.carried = Step.carriedThrough m.carried (m.runSteps n) := by
  induction n generalizing m with
  | zero => rfl
  | succ n ih =>
    have hpass := m.carried_pass
    rw [run, runSteps]
    generalize m.pass = result at hpass ⊢
    rcases result with ⟨next, _ | fault⟩
    · dsimp only at hpass ⊢
      rw [ih, Step.carriedThrough_append, hpass]
    · exact hpass

/-! ## Calls -/

/-- A call on a machine. -/
inductive Call where
  /-- Makes one pass. -/
  | pass
  /-- Makes several passes, as long as none fails. -/
  | run (n : Nat)
  /-- Exchanges the program. -/
  | withProgram (program : Program)
  /-- Takes the program away. -/
  | clearProgram
  /-- Changes the memory: takes over another one, loads an image or writes a byte. -/
  | access (call : Memory.Call)

/-- Why a call failed. -/
inductive Refusal where
  | fault (cause : Fault)
  | memory (cause : Memory.Refusal)
deriving DecidableEq

/-- Carries out a call.  A pass that fails leaves what it did so far, and an access
that is refused leaves the machine as it was. -/
def call (m : Machine) : Call → Machine × Option Refusal
  | .pass => (m.pass.1, m.pass.2.map .fault)
  | .run n => ((m.run n).1, (m.run n).2.map .fault)
  | .withProgram program => (m.withProgram program, none)
  | .clearProgram => (m.withProgram [], none)
  | .access c => (m.withMemory (m.memory.call c).1, (m.memory.call c).2.map .memory)

/-- Whether a call is meant to carry out the program. -/
def Call.Runs : Call → Prop
  | .pass | .run _ => True
  | .withProgram _ | .clearProgram | .access _ => False

/-- The instructions that a call carries out. -/
def stepsOf (m : Machine) : Call → List Step
  | .pass => m.steps
  | .run n => m.runSteps n
  | .withProgram _ | .clearProgram | .access _ => []

/-- The machine after some calls. -/
def afterCalls (m : Machine) : List Call → Machine
  | [] => m
  | c :: cs => (m.call c).1.afterCalls cs

/-- The instructions that some calls carry out, in order. -/
def history (m : Machine) : List Call → List Step
  | [] => []
  | c :: cs => m.stepsOf c ++ (m.call c).1.history cs

theorem carried_call (m : Machine) (c : Call) :
    (m.call c).1.carried = Step.carriedThrough m.carried (m.stepsOf c) := by
  cases c with
  | pass => exact m.carried_pass
  | run n => exact m.carried_run n
  | withProgram | clearProgram | access => rfl

theorem carried_afterCalls (m : Machine) (cs : List Call) :
    (m.afterCalls cs).carried = Step.carriedThrough m.carried (m.history cs) := by
  induction cs generalizing m with
  | nil => rfl
  | cons c cs ih =>
    rw [afterCalls, history, Step.carriedThrough_append, ← carried_call]
    exact ih _

/-! ## Steps that were carried out -/

/-- Every step in a history shows an instruction that was carried out, with the byte
that it left in memory. -/
theorem exists_of_mem_steps {m : Machine} {step : Step} (h : step ∈ m.steps) :
    ∃ s : State, step.instruction.Mapped ∧ step.written = s.written? step.instruction :=
  Program.exists_of_mem_stepsFrom h

theorem exists_of_mem_runSteps {n : Nat} {m : Machine} {step : Step} (h : step ∈ m.runSteps n) :
    ∃ m' : Machine, step ∈ m'.steps := by
  induction n generalizing m with
  | zero => cases h
  | succ n ih =>
    rw [runSteps] at h
    generalize m.pass = result at h
    rcases result with ⟨next, _ | fault⟩
    · rcases List.mem_append.1 h with h | h
      · exact ⟨m, h⟩
      · exact ih h
    · exact ⟨m, h⟩

theorem exists_of_mem_history {m : Machine} {cs : List Call} {step : Step}
    (h : step ∈ m.history cs) : ∃ m' : Machine, step ∈ m'.steps := by
  induction cs generalizing m with
  | nil => cases h
  | cons c cs ih =>
    rcases List.mem_append.1 h with h | h
    · cases c with
      | pass => exact ⟨m, h⟩
      | run n => exact exists_of_mem_runSteps h
      | withProgram | clearProgram | access => cases h
    · exact ih h

/-- A diff in a history shows the byte that it wrote. -/
theorem exists_written_of_mem_history {m : Machine} {cs : List Call} {step : Step}
    (h : step ∈ m.history cs) (hdiff : step.instruction.opcode = .diff) :
    ∃ byte, step.written = some byte := by
  obtain ⟨m', hm'⟩ := exists_of_mem_history h
  obtain ⟨s, hmapped, hwritten⟩ := exists_of_mem_steps hm'
  have hdestination : step.instruction.destination?.isSome := by
    cases hi : step.instruction with
    | diff => rfl
    | _ => simp [hi, Instruction.opcode] at hdiff
  rw [← Option.isSome_iff_exists, hwritten, s.isSome_written? hmapped]
  exact hdestination

end Machine

/-! ## The end of a history -/

namespace Step

variable {carried : Nibble} {step : Step} {steps : List Step}

theorem set?_of_keeps (h : ¬ step.instruction.opcode.SetsCarried) : step.set? = none := by
  unfold set?
  cases hop : step.instruction.opcode <;> simp [hop, Opcode.SetsCarried] at h ⊢

theorem set?_of_clears (h : step.instruction.opcode.Clears) : step.set? = some 0 := by
  unfold set?
  rcases h with hop | hop <;> rw [hop]

theorem carriedThrough_of_keeps (h : ∀ step ∈ steps, ¬ step.instruction.opcode.SetsCarried) :
    carriedThrough carried steps = carried := by
  induction steps generalizing carried with
  | nil => rfl
  | cons step steps ih =>
    obtain ⟨hstep, hsteps⟩ := List.forall_mem_cons.1 h
    rw [carriedThrough_cons, set?_of_keeps hstep, Option.getD_none, ih hsteps]

/-- Steps without a diff clear the nibble or leave it.  The induction is on the steps. -/
theorem carriedThrough_of_not_diff (h : ∀ step ∈ steps, step.instruction.opcode ≠ .diff) :
    carriedThrough carried steps =
      if ∃ step ∈ steps, step.instruction.opcode.Clears then 0 else carried := by
  induction steps generalizing carried with
  | nil => simp [carriedThrough]
  | cons step steps ih =>
    obtain ⟨hstep, hsteps⟩ := List.forall_mem_cons.1 h
    rw [carriedThrough_cons, ih hsteps]
    by_cases hclears : step.instruction.opcode.Clears
    · rw [set?_of_clears hclears, Option.getD_some, ite_self]
      simp only [List.mem_cons, exists_eq_or_imp, hclears, true_or, if_true]
    · have hkeeps : ¬ step.instruction.opcode.SetsCarried := by
        rintro (hop | hop | hop)
        · exact hclears (.inl hop)
        · exact hclears (.inr hop)
        · exact hstep hop
      rw [set?_of_keeps hkeeps, Option.getD_none]
      simp only [List.mem_cons, exists_eq_or_imp, hclears, false_or]

end Step

/-! ## All machines -/

namespace Machine

/-- How a machine is made. -/
inductive Origin where
  | blank
  | start (image : Memory) (program : Program)

/-- The machine as it is made. -/
def Origin.machine : Origin → Machine
  | .blank => .blank
  | .start image program => .start image program

theorem Origin.carried_machine (o : Origin) : o.machine.carried = 0 := by
  cases o <;> rfl

/-- The nibble of a machine after any calls is known from what they carried out: it is
the low half of the byte that the last diff wrote, unless the nibble was cleared after
that diff, and otherwise it is zero.  It has four bits.  Nothing but an instruction that
is carried out changes it. -/
theorem carried_origin (o : Origin) (cs : List Call) :
    let m := o.machine.afterCalls cs
    let steps := o.machine.history cs
    ((∀ step ∈ steps, step.instruction.opcode ≠ .diff) → m.carried = 0) ∧
    (∀ front step rest, steps = front ++ step :: rest → step.instruction.opcode = .diff →
      (∀ later ∈ rest, later.instruction.opcode ≠ .diff) →
      ∃ byte, step.written = some byte ∧
        m.carried =
          if ∃ later ∈ rest, later.instruction.opcode.Clears then 0 else Nibble.low byte) ∧
    m.carried.toNat < 16 ∧
    ∀ c : Call, (c.Runs → ∀ step ∈ m.stepsOf c, ¬ step.instruction.opcode.SetsCarried) →
      (m.call c).1.carried = m.carried := by
  intro m steps
  have hcarried : m.carried = Step.carriedThrough 0 steps := by
    rw [← o.carried_machine]
    exact carried_afterCalls _ cs
  refine ⟨fun hnone => ?_, fun front step rest hsteps hdiff hlast => ?_, m.carried.isLt,
    fun c hc => ?_⟩
  · rw [hcarried, Step.carriedThrough_of_not_diff hnone, ite_self]
  · have hmem : step ∈ steps := by
      rw [hsteps]
      exact List.mem_append_right front List.mem_cons_self
    obtain ⟨byte, hwritten⟩ := exists_written_of_mem_history hmem hdiff
    have hset : step.set? = some (Nibble.low byte) := by
      rw [Step.set?, hdiff, hwritten]
      rfl
    refine ⟨byte, hwritten, ?_⟩
    rw [hcarried, hsteps, Step.carriedThrough_append, Step.carriedThrough_cons, hset,
      Option.getD_some, Step.carriedThrough_of_not_diff hlast]
  · have hkeeps : ∀ step ∈ m.stepsOf c, ¬ step.instruction.opcode.SetsCarried := by
      cases c with
      | pass | run => exact hc trivial
      | withProgram | clearProgram | access => exact fun step hstep => nomatch hstep
    rw [carried_call, Step.carriedThrough_of_keeps hkeeps]

/-- A pass that fails behind a diff, a rejected image, another memory and a program
that does not set the nibble. -/
theorem carried_origin_failed_pass :
    let p : Program := [⟨8, 0, 0⟩, ⟨3, 0xA000, 0⟩, ⟨1, 0xA001, 5⟩, ⟨9, 0, 0⟩, ⟨0, 0, 0⟩]
    let o : Origin := .start (.ofBytes [7]) p
    let cs : List Call :=
      [.run 3, .access (.load [1, 2]), .access (.copy .blank), .withProgram [⟨1, 0xA000, 1⟩], .pass]
    ∃ step rest byte, o.machine.history cs = o.machine.steps.take 1 ++ step :: rest ∧
      step.instruction = .diff 0xA000 false ∧ step.written = some byte ∧ rest.length = 2 ∧
      (o.machine.afterCalls cs).carried = Nibble.low byte := by
  intro p o cs
  obtain ⟨step, rest, hhistory, hstep, hrest⟩ : ∃ step rest,
      o.machine.history cs = o.machine.steps.take 1 ++ step :: rest ∧
        step.instruction = .diff 0xA000 false ∧
        rest.map Step.instruction = [.fill 0xA001 5, .fill 0xA000 1] :=
    ⟨_, [_, _], rfl, rfl, rfl⟩
  have hlater : ∀ later ∈ rest, later.instruction.opcode = .fill := by
    intro later hmem
    have hin := List.mem_map_of_mem (f := Step.instruction) hmem
    rw [hrest] at hin
    simp only [List.mem_cons, List.not_mem_nil, or_false] at hin
    rcases hin with h | h <;> rw [h] <;> rfl
  obtain ⟨-, hlast, -, -⟩ := carried_origin o cs
  obtain ⟨byte, hwritten, hcarried⟩ := hlast _ step rest hhistory (by rw [hstep]; rfl)
    fun later hmem => by rw [hlater later hmem]; decide
  refine ⟨step, rest, byte, hhistory, hstep, hwritten, ?_, ?_⟩
  · rw [← List.length_map (f := Step.instruction), hrest]
    rfl
  · rw [hcarried, if_neg]
    rintro ⟨later, hmem, hclears⟩
    rw [hlater later hmem] at hclears
    exact absurd hclears (by decide)

end Machine

end SaveRam
