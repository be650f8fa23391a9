/-!
# Numerals

Behavior files write numbers with an optional sign and then in hexadecimal
after `0x` or `0X`, in octal after a leading `0`, or else in decimal.
`Numeral.parse?` gives the value of a whole text, if it has that form and fits
into 64 bits.  The digits after the radix may bring a second sign of their own.
-/

namespace SaveRam.Numeral

/-- The value of a digit in a base of at most sixteen. -/
def digit? (base : Nat) (c : Char) : Option Nat :=
  let value :=
    if '0' ≤ c ∧ c ≤ '9' then c.toNat - '0'.toNat
    else if 'a' ≤ c ∧ c ≤ 'f' then c.toNat - 'a'.toNat + 10
    else if 'A' ≤ c ∧ c ≤ 'F' then c.toNat - 'A'.toNat + 10
    else base
  if value < base then some value else none

/-- Whether a character is a digit in a base. -/
def isDigit (base : Nat) (c : Char) : Bool := (digit? base c).isSome

/-- The value of digits, most significant first, after digits worth `acc`. -/
def digitsFrom? (base : Nat) : (acc : Nat) → List Char → Option Nat
  | acc, [] => some acc
  | acc, c :: cs =>
    match digit? base c with
    | some value => digitsFrom? base (acc * base + value) cs
    | none => none

/-- The value of one or more digits. -/
def digits? (base : Nat) (cs : List Char) : Option Nat :=
  if cs.isEmpty then none else digitsFrom? base 0 cs

/-- The number as a 64-bit one, if it is in range. -/
def fit? (n : Int) : Option Int64 :=
  if Int64.minValue.toInt ≤ n ∧ n ≤ Int64.maxValue.toInt then some (Int64.ofInt n) else none

/-- The value of an optional sign and one or more digits. -/
def signed? (base : Nat) : List Char → Option Int64
  | '-' :: cs => (digits? base cs).bind fun n => fit? (-n)
  | '+' :: cs => (digits? base cs).bind fun n => fit? n
  | cs => (digits? base cs).bind fun n => fit? n

/-- The value of a text behind its first sign. -/
def body? : List Char → Option Int64
  | '0' :: 'x' :: cs => signed? 16 cs
  | '0' :: 'X' :: cs => signed? 16 cs
  | '0' :: c :: cs => signed? 8 (c :: cs)
  | cs => signed? 10 cs

/-- The value of a numeral. -/
def parse? : List Char → Option Int64
  | '-' :: cs => (body? cs).map fun n => -n
  | '+' :: cs => body? cs
  | cs => body? cs

end SaveRam.Numeral
