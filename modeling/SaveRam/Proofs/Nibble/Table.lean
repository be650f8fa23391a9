import SaveRam.DiffCode

/-!
# The operations on nibbles as tables

The operations on the halves of a byte are given by tables and shifts as well.  The
code has one table of 32 bytes, in which a byte holds the codes of two nibbles that
differ in the last bit (`DiffCode.packed`).  The reversal of four bits is a table of 16
entries (`Nibble.reversed`).

`DiffCode.toByte_nibble` finds every code in the packed table, and
`DiffCode.byte_eq`, `reverseNibbles_eq` and `swapNibbles_eq` are the operations on a
whole byte in the arithmetic of bytes.
-/

namespace SaveRam

/-! ## Nibbles as bytes -/

namespace Nibble

/-- The byte below 16 with the bits of a nibble. -/
def toByte (n : Nibble) : UInt8 := join 0 n

theorem toByte_high (b : UInt8) : (high b).toByte = b >>> 4 := by
  cases b with | ofBitVec b =>
  revert b; decide

theorem toByte_low (b : UInt8) : (low b).toByte = b &&& 0x0F := by
  cases b with | ofBitVec b =>
  revert b; decide

theorem join_eq (hi lo : Nibble) : join hi lo = hi.toByte <<< 4 ||| lo.toByte := by
  revert hi lo; decide

/-- The nibbles with their bits in the opposite order. -/
def reversed : Vector UInt8 16 :=
  #v[0x0, 0x8, 0x4, 0xC, 0x2, 0xA, 0x6, 0xE, 0x1, 0x9, 0x5, 0xD, 0x3, 0xB, 0x7, 0xF]

theorem toByte_reverse (n : Nibble) : toByte n.reverse = reversed.get n.toFin := by
  revert n; decide

end Nibble

/-! ## The code -/

namespace DiffCode

/-- The codes of all nibbles, for a clear and a set bit in either direction.  The code
of an even nibble is in the high half of its byte, that of an odd one in the low half. -/
def packed : Vector UInt8 32 :=
  #v[0x01, 0x32, 0x76, 0x45, 0xFE, 0xCD, 0x89, 0xBA,
    0xFE, 0xCD, 0x89, 0xBA, 0x01, 0x32, 0x76, 0x45,
    0x08, 0xC4, 0xE6, 0x2A, 0xF7, 0x3B, 0x19, 0xD5,
    0xF7, 0x3B, 0x19, 0xD5, 0x08, 0xC4, 0xE6, 0x2A]

/-- The position of the byte with the code of a nibble. -/
def packedIndex (inverted carry : Bool) (n : Nibble) : Fin 32 :=
  ⟨carry.toNat * 8 + inverted.toNat * 16 + n.toNat / 2, by
    have hn : n.toNat < 16 := n.isLt
    have hcarry := carry.toNat_le
    have hinverted := inverted.toNat_le
    omega⟩

/-- The code of a nibble is a half of its byte in the packed table. -/
theorem toByte_nibble (inverted : Bool) (carried n : Nibble) :
    (nibble inverted carried n).toByte =
      let entry := packed.get (packedIndex inverted (carryBit inverted carried) n)
      if n.toByte &&& 1 = 0 then entry >>> 4 else entry &&& 0x0F := by
  unfold nibble
  generalize carryBit inverted carried = carry
  revert inverted carry n
  decide

/-- The high half is coded first and carries its code on to the low half, which carries
its own on. -/
theorem byte_eq (inverted : Bool) (carried : Nibble) (b : UInt8) :
    byte inverted carried b =
      let hi := nibble inverted carried (Nibble.high b)
      let lo := nibble inverted hi (Nibble.low b)
      (hi.toByte <<< 4 ||| lo.toByte, lo) := by
  dsimp only [byte]
  rw [Nibble.join_eq]

end DiffCode

/-! ## Reversal and exchange -/

theorem reverseNibbles_eq (b : UInt8) :
    reverseNibbles b =
      Nibble.reversed.get (Nibble.high b).toFin <<< 4 |||
        Nibble.reversed.get (Nibble.low b).toFin := by
  rw [reverseNibbles, Nibble.join_eq, Nibble.toByte_reverse, Nibble.toByte_reverse]

/-- The exchange of the halves is a rotation by four bits. -/
theorem swapNibbles_eq (b : UInt8) : swapNibbles b = b <<< 4 ||| b >>> 4 := by
  have hlow : (Nibble.low b).toByte <<< 4 = b <<< 4 := by
    rw [Nibble.toByte_low]
    cases b with | ofBitVec b =>
    revert b; decide
  rw [swapNibbles, Nibble.join_eq, hlow, Nibble.toByte_high]

end SaveRam
