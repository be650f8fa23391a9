import SaveRam.DiffCode

/-!
# Nibbles under exclusive or

The operations on one byte respect exclusive or: the halves of a byte, the
exchange and the reversal of its halves, and the differential code.

The code is the one case that is not plain from its definition.  Its table has
four rows.  `DiffCode.row_eq` reads the rows for a set carry bit as the
complement of the rows for a clear one, and `DiffCode.row_false_xor` says that
these are linear.  So the code of a nibble is linear in the nibble and the
carried nibble together (`DiffCode.nibble_xor`), and the code of a byte in the
byte and the carried nibble (`DiffCode.byte_xor`).
-/

namespace SaveRam

/-! ## The halves of a byte -/

namespace Nibble

theorem low_xor (a b : UInt8) : low (a ^^^ b) = low a ^^^ low b := by
  simp [low]

theorem high_xor (a b : UInt8) : high (a ^^^ b) = high a ^^^ high b := by
  simp [high, UInt8.shiftRight_xor]

theorem join_xor (h₁ h₂ l₁ l₂ : Nibble) :
    join (h₁ ^^^ h₂) (l₁ ^^^ l₂) = join h₁ l₁ ^^^ join h₂ l₂ := by
  unfold join
  rw [← UInt8.ofBitVec_xor, BitVec.xor_append]

theorem reverse_xor (m n : Nibble) : (m ^^^ n).reverse = m.reverse ^^^ n.reverse := by
  ext i hi
  simp [BitVec.getElem_reverse, BitVec.getMsbD_xor]

end Nibble

theorem swapNibbles_xor (a b : UInt8) :
    swapNibbles (a ^^^ b) = swapNibbles a ^^^ swapNibbles b := by
  simp only [swapNibbles, Nibble.low_xor, Nibble.high_xor, Nibble.join_xor]

theorem reverseNibbles_xor (a b : UInt8) :
    reverseNibbles (a ^^^ b) = reverseNibbles a ^^^ reverseNibbles b := by
  simp only [reverseNibbles, Nibble.low_xor, Nibble.high_xor, Nibble.reverse_xor,
    Nibble.join_xor]

/-! ## The differential code -/

namespace DiffCode

/-- The nibble that a carry bit adds to a code. -/
def flip (carry : Bool) : Nibble := if carry then 0xF else 0

theorem flip_xor (a b : Bool) : flip (a ^^ b) = flip a ^^^ flip b := by
  cases a <;> cases b <;> rfl

/-- A set carry bit complements the code. -/
theorem row_eq (inverted carry : Bool) (n : Fin 16) :
    (row inverted carry).get n = (row inverted false).get n ^^^ flip carry := by
  revert inverted carry n
  decide

/-- The code without carry is linear. -/
theorem row_false_xor (inverted : Bool) (m n : Nibble) :
    (row inverted false).get (m ^^^ n).toFin =
      (row inverted false).get m.toFin ^^^ (row inverted false).get n.toFin := by
  revert inverted m n
  decide

theorem carryBit_xor (inverted : Bool) (c d : Nibble) :
    carryBit inverted (c ^^^ d) = (carryBit inverted c ^^ carryBit inverted d) := by
  cases inverted <;> simp [carryBit]

/-- The code is linear in the nibble and the carried nibble together. -/
theorem nibble_xor (inverted : Bool) (c d m n : Nibble) :
    nibble inverted (c ^^^ d) (m ^^^ n) = nibble inverted c m ^^^ nibble inverted d n := by
  unfold nibble
  rw [row_eq, row_eq inverted (carryBit inverted c), row_eq inverted (carryBit inverted d),
    row_false_xor, carryBit_xor, flip_xor]
  ac_rfl

/-- The code of a byte and the nibble carried on are linear in the byte and
the carried nibble. -/
theorem byte_xor (inverted : Bool) (c d : Nibble) (a b : UInt8) :
    byte inverted (c ^^^ d) (a ^^^ b) =
      ((byte inverted c a).1 ^^^ (byte inverted d b).1,
        (byte inverted c a).2 ^^^ (byte inverted d b).2) := by
  simp only [byte, Nibble.high_xor, Nibble.low_xor, nibble_xor, Nibble.join_xor]

end DiffCode

end SaveRam
