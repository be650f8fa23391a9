import SaveRam.Instruction

/-!
# Instructions as number triples

A behavior program stores an instruction as three signed 64-bit numbers: the
operation and two parameters.  `Triple.decode` reads a triple and fails only
for an unknown operation.  Addresses are the low 16 bits of a parameter, bytes
and masks its low 8 bits, and a flag is set when its low 8 bits are not zero.
`Instruction.encode` writes the canonical triple of an instruction, with zero
for every parameter that the operation does not use.
-/

namespace SaveRam

/-- An instruction as the numbers of a behavior program. -/
structure Triple where
  opcode : Int64
  param1 : Int64
  param2 : Int64
deriving DecidableEq

/-- An operation number outside 0 to 8. -/
structure UnknownOpcode where
  number : Int64
deriving DecidableEq

namespace Triple

/-- The low 16 bits of a parameter. -/
def lowWord (param : Int64) : UInt16 := param.toUInt64.toUInt16

/-- The low 8 bits of a parameter. -/
def lowByte (param : Int64) : UInt8 := param.toUInt64.toUInt8

/-- The instruction that the triple stands for. -/
def decode (t : Triple) : Except UnknownOpcode (Instruction Address) :=
  let dst : Address := lowWord t.param1
  match Opcode.ofNumber? t.opcode.toInt with
  | some .init => .ok .init
  | some .fill => .ok (.fill dst (lowByte t.param2))
  | some .swap => .ok (.swap dst)
  | some .diff => .ok (.diff dst (lowByte t.param2 != 0))
  | some .reverse => .ok (.reverse dst)
  | some .xor => .ok (.xor dst (lowWord t.param2))
  | some .copy => .ok (.copy dst (lowWord t.param2))
  | some .bitset => .ok (.bitset dst (lowByte t.param2))
  | some .reset => .ok .reset
  | none => .error ⟨t.opcode⟩

end Triple

namespace Instruction

/-- The parameter that holds an address. -/
def addressParam (a : Address) : Int64 := a.toUInt64.toInt64

/-- The parameter that holds a byte. -/
def byteParam (b : UInt8) : Int64 := b.toUInt64.toInt64

/-- The canonical triple of an instruction. -/
def encode (i : Instruction Address) : Triple :=
  let opcode := byteParam i.opcode.number
  match i with
  | .init | .reset => ⟨opcode, 0, 0⟩
  | .fill dst byte => ⟨opcode, addressParam dst, byteParam byte⟩
  | .swap dst | .reverse dst => ⟨opcode, addressParam dst, 0⟩
  | .diff dst inverted => ⟨opcode, addressParam dst, if inverted then 1 else 0⟩
  | .xor dst src | .copy dst src => ⟨opcode, addressParam dst, addressParam src⟩
  | .bitset dst mask => ⟨opcode, addressParam dst, byteParam mask⟩

end Instruction

/-! ## Reading back -/

/-- An address is read back from its parameter. -/
theorem Triple.lowWord_addressParam (a : Address) :
    Triple.lowWord (Instruction.addressParam a) = a := by
  simp [Triple.lowWord, Instruction.addressParam]

/-- A byte is read back from its parameter. -/
theorem Triple.lowByte_byteParam (b : UInt8) :
    Triple.lowByte (Instruction.byteParam b) = b := by
  simp [Triple.lowByte, Instruction.byteParam]

/-- Every instruction is read back from its canonical triple. -/
theorem Instruction.decode_encode (i : Instruction Address) : i.encode.decode = .ok i := by
  have hop : ∀ o : Opcode,
      Opcode.ofNumber? (Instruction.byteParam o.number).toInt = some o := by
    intro o; cases o <;> rfl
  cases i <;>
    simp only [Triple.decode, Instruction.encode, hop, Instruction.opcode,
      Triple.lowWord_addressParam, Triple.lowByte_byteParam]
  case diff dst inverted => cases inverted <;> rfl

end SaveRam
