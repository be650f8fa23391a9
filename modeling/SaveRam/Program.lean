import SaveRam.Text.Columns
import SaveRam.Text.Hex
import SaveRam.Triple

/-!
# Behavior programs

A behavior program is the list of triples that one corruption pass works
through.  A program may hold triples with unknown operations: they are kept,
counted by `Program.unknownCount` and shown as `.invalid` lines in the listing.
-/

namespace SaveRam

/-- A behavior program, in the order of execution. -/
abbrev Program := List Triple

/-! ## Listing -/

/-- An instruction in a listing: the mnemonic and the operands. -/
def Instruction.text (i : Instruction Address) : String :=
  let name := i.opcode.mnemonic
  match i with
  | .init | .reset => name
  | .fill dst byte | .bitset dst byte => s!"{name} ${Hex.word dst}, ${Hex.byte byte}"
  | .swap dst | .reverse dst => s!"{name} ${Hex.word dst}"
  | .diff dst inverted => s!"{name} ${Hex.word dst}" ++ if inverted then ", inv" else ""
  | .xor dst src | .copy dst src => s!"{name} ${Hex.word dst}, ${Hex.word src}"

/-- A number of a triple in base ten. -/
def Triple.number (n : Int64) : String := toString n.toInt

/-- A triple in a listing: its instruction, or its numbers when the operation
is unknown. -/
def Triple.text (t : Triple) : String :=
  match t.decode with
  | .ok i => i.text
  | .error _ => s!".invalid {number t.opcode} {number t.param1} {number t.param2}"

namespace Program

/-- The program with the canonical triples of the given instructions. -/
def ofInstructions (is : List (Instruction Address)) : Program := is.map Instruction.encode

/-- The number of triples with an unknown operation. -/
def unknownCount (p : Program) : Nat :=
  p.countP fun t => t.decode matches .error _

/-- One line of a listing: the position in four columns, then the triple. -/
def line (index : Nat) (t : Triple) : String :=
  s!"{Columns.alignRight 4 (toString index)}: {t.text}\n"

/-- The disassembly of a program, one line for each triple. -/
def listing (p : Program) : String := String.join (p.mapIdx line)

end Program

end SaveRam
