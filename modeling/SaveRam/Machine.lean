import SaveRam.Fault
import SaveRam.Program
import SaveRam.State

/-!
# The corruption machine

A machine holds a state and a program and counts its passes.  One pass carries
out the triples of the program in order.  The first triple that cannot be
carried out ends the pass with a fault; what the triples before it did stays
done, and the pass is not counted.  `Machine.run` repeats passes until one
faults.
-/

namespace SaveRam

/-- Carries out the triples of a program from position `index` on.  The result
is the last state reached and the fault that ended the pass, if any. -/
def Program.passFrom (index : Nat) : Program → State → State × Option Fault
  | [], s => (s, none)
  | t :: rest, s =>
    match t.decode with
    | .error e => (s, some (.unknownOperation index e.number))
    | .ok i =>
      match s.execute i with
      | (s, none) => Program.passFrom (index + 1) rest s
      | (s, some e) => (s, some (.unmapped e.address))

/-- One pass over a whole program. -/
def Program.pass (p : Program) (s : State) : State × Option Fault := p.passFrom 0 s

/-- A program at work on a state. -/
structure Machine where
  state : State
  program : Program
  passes : Nat
deriving DecidableEq

namespace Machine

/-- A machine with blank memory and no program. -/
def blank : Machine := ⟨default, [], 0⟩

instance : Inhabited Machine := ⟨blank⟩

/-- A fresh machine for a program, started on an image. -/
def start (memory : Memory) (program : Program) : Machine := ⟨.ofMemory memory, program, 0⟩

/-- The save memory of the machine. -/
def memory (m : Machine) : Memory := m.state.memory

/-- The nibble carried by the differential code. -/
def carried (m : Machine) : Nibble := m.state.carried

/-- Exchanges the program.  State and pass count stay. -/
def withProgram (m : Machine) (program : Program) : Machine := { m with program }

/-- Exchanges the memory.  The carried nibble and the pass count stay. -/
def withMemory (m : Machine) (memory : Memory) : Machine :=
  { m with state := ⟨memory, m.state.carried⟩ }

/-- One corruption pass. -/
def pass : Machine → Machine × Option Fault
  | ⟨state, program, passes⟩ =>
    match program.pass state with
    | (state, none) => (⟨state, program, passes + 1⟩, none)
    | (state, some fault) => (⟨state, program, passes⟩, some fault)

/-- At most `n` passes, fewer when one of them faults. -/
def run : Nat → Machine → Machine × Option Fault
  | 0, m => (m, none)
  | n + 1, m =>
    match m.pass with
    | (m, none) => run n m
    | (m, some fault) => (m, some fault)

end Machine

end SaveRam
