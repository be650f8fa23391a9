import SaveRam.Journal
import SaveRam.Machine

/-!
# The journal of a pass

`Machine.steps` lists what a pass is going to do, instruction by instruction, up
to the end of the program or to the first triple that cannot be carried out.
-/

namespace SaveRam

/-- An instruction that a pass carried out, with the byte it wrote and the
nibble carried after it. -/
structure Step where
  index : Nat
  instruction : Instruction Address
  written : Option UInt8
  carried : Nibble

/-- The byte that an instruction left at its destination. -/
def State.written? (s : State) (i : Instruction Address) : Option UInt8 :=
  i.destination?.bind fun a => (s.memory.read a).toOption

/-- The steps of a program from position `index` on. -/
def Program.stepsFrom (index : Nat) : Program → State → List Step
  | [], _ => []
  | t :: rest, s =>
    match t.decode with
    | .error _ => []
    | .ok i =>
      match s.execute i with
      | (s, none) =>
        ⟨index, i, s.written? i, s.carried⟩ :: Program.stepsFrom (index + 1) rest s
      | (_, some _) => []

/-- The steps of the next pass of a machine. -/
def Machine.steps (m : Machine) : List Step := m.program.stepsFrom 0 m.state

/-- An optional byte in a journal entry. -/
def Step.writtenText (s : Step) : String :=
  match s.written with
  | some byte => s!"Some({byte})"
  | none => "None"

/-- The journal entry of a step, under the number of its pass. -/
def Step.entry (pass : Nat) (s : Step) : Entry where
  level := .trace
  origin := .machine
  message := "executed"
  values :=
    [("pass", toString pass), ("index", toString s.index), ("instr", s.instruction.text),
      ("written", s.writtenText), ("last_result", toString s.carried.toNat)]

/-- The journal of the next pass of a machine. -/
def Machine.passEntries (m : Machine) : List Entry := m.steps.map (Step.entry m.passes)

end SaveRam
