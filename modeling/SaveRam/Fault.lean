import SaveRam.Text.Hex
import SaveRam.Triple

/-!
# Faults and their texts

What can go wrong while instructions are decoded, memory is accessed and a pass
is run, each with the sentence that reports it.
-/

namespace SaveRam

/-- Why a corruption pass stopped. -/
inductive Fault where
  /-- The triple at `index` has an unknown operation. -/
  | unknownOperation (index : Nat) (opcode : Int64)
  /-- An instruction accessed an address outside the save memory. -/
  | unmapped (address : Address)
deriving DecidableEq

/-- The sentence for an address outside the save memory, in four hexadecimal digits. -/
def Unmapped.message (e : Unmapped) : String :=
  s!"SRAM out of bounds: address 0x{Hex.word e.address}"

/-- The sentence for an image of the wrong size, with the size that was found. -/
def WrongSize.message (e : WrongSize) : String :=
  s!"Invalid snapshot size: expected 8192 bytes, found {e.found} bytes"

/-- The sentence for a number that is no opcode. -/
def UnknownOpcode.message (e : UnknownOpcode) : String :=
  s!"Unknown operation: {e.number.toInt} (valid range: 0-8)"

/-- The sentence for a pass that stopped. -/
def Fault.message : Fault → String
  | .unknownOperation index opcode =>
    s!"Unknown operation {opcode.toInt} at instruction {index}"
  | .unmapped address => Unmapped.message ⟨address⟩

end SaveRam
