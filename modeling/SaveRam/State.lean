import SaveRam.DiffCode
import SaveRam.Instruction

/-!
# Carrying out one instruction

The state of a corruption pass is the save memory and the nibble that the
differential code carries from one byte to the next.  `Instruction.apply` is
the effect of an instruction whose places are cells; it cannot fail.
`State.execute` takes an instruction with addresses: when one of them is
unmapped the state stays as it was and the access error is handed back.
-/

namespace SaveRam

/-- What an instruction reads and writes. -/
structure State where
  memory : Memory
  carried : Nibble
deriving DecidableEq

instance : Inhabited State := ⟨⟨Memory.blank, 0⟩⟩

/-- The state after an instruction. -/
def Instruction.apply (i : Instruction Cell) : State → State
  | ⟨memory, carried⟩ =>
    match i with
    | .init | .reset => ⟨memory, 0⟩
    | .fill dst byte => ⟨memory.set dst byte, carried⟩
    | .swap dst => ⟨memory.set dst (swapNibbles (memory.get dst)), carried⟩
    | .diff dst inverted =>
      let (code, carried) := DiffCode.byte inverted carried (memory.get dst)
      ⟨memory.set dst code, carried⟩
    | .reverse dst => ⟨memory.set dst (reverseNibbles (memory.get dst)), carried⟩
    | .xor dst src => ⟨memory.set dst (memory.get dst ^^^ memory.get src), carried⟩
    | .copy dst src => ⟨memory.set dst (memory.get src), carried⟩
    | .bitset dst mask => ⟨memory.set dst (memory.get dst ||| mask), carried⟩

namespace State

/-- The state at the start of a machine: an image and no carried bits. -/
def ofMemory (memory : Memory) : State := ⟨memory, 0⟩

/-- Carries out one instruction, or leaves the state alone and reports the
unmapped address. -/
def execute (s : State) (i : Instruction Address) : State × Option Unmapped :=
  match i.resolve with
  | .ok i => (i.apply s, none)
  | .error e => (s, some e)

end State

end SaveRam
