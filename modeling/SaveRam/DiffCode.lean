import SaveRam.Nibble

/-!
# The differential nibble code

The diff operation replaces each nibble by a code that depends on one bit of
the nibble written before it.  `DiffCode.row` is the code table: one row of
sixteen codes for each direction and each value of that bit.  The forward rows
look at the lowest bit of the carried nibble, the inverted rows at its highest
bit.  `DiffCode.nibble` codes one nibble and `DiffCode.byte` the two halves of
a byte, high half first, together with the nibble carried on.
-/

namespace SaveRam.DiffCode

/-- The codes of the nibbles `0` to `15` for a direction and a carried bit. -/
def row (inverted carry : Bool) : Vector Nibble 16 :=
  match inverted, carry with
  | false, false =>
    #v[0x0, 0x1, 0x3, 0x2, 0x7, 0x6, 0x4, 0x5, 0xF, 0xE, 0xC, 0xD, 0x8, 0x9, 0xB, 0xA]
  | false, true =>
    #v[0xF, 0xE, 0xC, 0xD, 0x8, 0x9, 0xB, 0xA, 0x0, 0x1, 0x3, 0x2, 0x7, 0x6, 0x4, 0x5]
  | true, false =>
    #v[0x0, 0x8, 0xC, 0x4, 0xE, 0x6, 0x2, 0xA, 0xF, 0x7, 0x3, 0xB, 0x1, 0x9, 0xD, 0x5]
  | true, true =>
    #v[0xF, 0x7, 0x3, 0xB, 0x1, 0x9, 0xD, 0x5, 0x0, 0x8, 0xC, 0x4, 0xE, 0x6, 0x2, 0xA]

/-- The bit of the carried nibble that selects the row. -/
def carryBit (inverted : Bool) (carried : Nibble) : Bool :=
  if inverted then carried[3] else carried[0]

/-- The code of one nibble.  It is also the nibble carried on. -/
def nibble (inverted : Bool) (carried n : Nibble) : Nibble :=
  (row inverted (carryBit inverted carried)).get n.toFin

/-- The code of a byte and the nibble carried on after its low half. -/
def byte (inverted : Bool) (carried : Nibble) (b : UInt8) : UInt8 × Nibble :=
  let hi := nibble inverted carried (Nibble.high b)
  let lo := nibble inverted hi (Nibble.low b)
  (Nibble.join hi lo, lo)

end SaveRam.DiffCode
