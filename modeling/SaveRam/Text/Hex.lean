/-!
# Hexadecimal text

Numbers in base sixteen, padded with zeros to a fixed width.  `Hex.lower`
writes the letters `a` to `f`, `Hex.upper` the letters `A` to `F`.
-/

namespace SaveRam.Hex

/-- The digit of a value below sixteen, with `letterA` as the digit for ten. -/
def digit (letterA : Char) (value : Nat) : Char :=
  if value < 10 then Char.ofNat ('0'.toNat + value)
  else Char.ofNat (letterA.toNat + (value - 10))

/-- The last `width` base-sixteen digits of a number, most significant first. -/
def digits (letterA : Char) : (width : Nat) → (n : Nat) → List Char
  | 0, _ => []
  | width + 1, n => digits letterA width (n / 16) ++ [digit letterA (n % 16)]

/-- A number below `16 ^ width` in lowercase digits. -/
def lower (width n : Nat) : String := String.ofList (digits 'a' width n)

/-- A number below `16 ^ width` in uppercase digits. -/
def upper (width n : Nat) : String := String.ofList (digits 'A' width n)

/-- The text of a byte, two lowercase digits. -/
def byte (b : UInt8) : String := lower 2 b.toNat

/-- The text of a 16-bit word, four lowercase digits. -/
def word (w : UInt16) : String := lower 4 w.toNat

/-- The bytes of a list, each followed by a space. -/
def spaced (bytes : List UInt8) : String := String.join (bytes.map fun b => s!"{byte b} ")

/-- There are as many digits as asked for, whatever the number. -/
@[simp] theorem length_digits (letterA : Char) (width n : Nat) :
    (digits letterA width n).length = width := by
  induction width generalizing n with
  | zero => rfl
  | succ width ih => simp [digits, ih]

end SaveRam.Hex
