/-!
# Nibbles

A byte is read as two nibbles, the high one first.  `Nibble.high` and
`Nibble.low` take them out, `Nibble.join` puts them together, and the two byte
operations `swapNibbles` and `reverseNibbles` are written with them.
-/

namespace SaveRam

/-- Four bits, the half of a byte. -/
abbrev Nibble := BitVec 4

namespace Nibble

/-- The half of a byte with its low four bits. -/
def low (byte : UInt8) : Nibble := byte.toBitVec.setWidth 4

/-- The half of a byte with its high four bits. -/
def high (byte : UInt8) : Nibble := (byte >>> 4).toBitVec.setWidth 4

/-- The byte with the given halves. -/
def join (hi lo : Nibble) : UInt8 := UInt8.ofBitVec (hi ++ lo)

/-- The high half of a joined byte is its first part. -/
@[simp] theorem high_join (hi lo : Nibble) : high (join hi lo) = hi := by
  revert hi lo; decide

/-- The low half of a joined byte is its second part. -/
@[simp] theorem low_join (hi lo : Nibble) : low (join hi lo) = lo := by
  revert hi lo; decide

/-- A byte is made of its two halves. -/
@[simp] theorem join_high_low (byte : UInt8) : join (high byte) (low byte) = byte := by
  cases byte with | ofBitVec b =>
  revert b; decide

end Nibble

/-- Exchanges the two halves of a byte. -/
def swapNibbles (byte : UInt8) : UInt8 :=
  Nibble.join (Nibble.low byte) (Nibble.high byte)

/-- Reverses the bit order inside each half of a byte. -/
def reverseNibbles (byte : UInt8) : UInt8 :=
  Nibble.join (Nibble.high byte).reverse (Nibble.low byte).reverse

end SaveRam
