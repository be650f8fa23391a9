/-!
# Operation codes

A behavior program names its operations by the numbers 0 to 8.  Every other
number is unknown.
-/

namespace SaveRam

/-- The nine operations, in the order of their numbers. -/
inductive Opcode where
  /-- Clears the carried nibble at the start of a program. -/
  | init
  /-- Stores a constant byte. -/
  | fill
  /-- Exchanges the halves of a byte. -/
  | swap
  /-- Replaces a byte by its differential code. -/
  | diff
  /-- Reverses the bits inside each half of a byte. -/
  | reverse
  /-- Combines a byte with another one by exclusive or. -/
  | xor
  /-- Copies another byte. -/
  | copy
  /-- Sets the bits of a mask in a byte. -/
  | bitset
  /-- Clears the carried nibble. -/
  | reset
deriving DecidableEq

namespace Opcode

/-- The number that stands for the operation in a program. -/
def number : Opcode → UInt8
  | .init => 0
  | .fill => 1
  | .swap => 2
  | .diff => 3
  | .reverse => 4
  | .xor => 5
  | .copy => 6
  | .bitset => 7
  | .reset => 8

/-- The operation with the given number. -/
def ofNumber? : Int → Option Opcode
  | 0 => some .init
  | 1 => some .fill
  | 2 => some .swap
  | 3 => some .diff
  | 4 => some .reverse
  | 5 => some .xor
  | 6 => some .copy
  | 7 => some .bitset
  | 8 => some .reset
  | _ => none

/-- The name of the operation in a listing. -/
def mnemonic : Opcode → String
  | .init => "init"
  | .fill => "fill"
  | .swap => "swap"
  | .diff => "diff"
  | .reverse => "nrev"
  | .xor => "xor"
  | .copy => "copy"
  | .bitset => "bitset"
  | .reset => "reset"

/-- Every operation is found by its number. -/
theorem ofNumber?_number (o : Opcode) : ofNumber? o.number.toNat = some o := by
  cases o <;> rfl

end Opcode

end SaveRam
