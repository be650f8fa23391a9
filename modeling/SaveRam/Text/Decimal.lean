/-!
# Decimal fractions

Two ways to write a quotient of natural numbers in base ten.  `Decimal.fixed`
has a given number of places and rounds a half to the even neighbour.
`Decimal.exact` has as few places as write the quotient without loss, but at
least one; it is for quotients whose expansion ends within a known number of
places.
-/

namespace SaveRam.Decimal

/-- The text of `n / 10 ^ places`. -/
def scaled (places n : Nat) : String :=
  let fraction := toString (n % Nat.pow 10 places)
  let zeros := String.ofList (List.replicate (places - fraction.toList.length) '0')
  s!"{n / Nat.pow 10 places}.{zeros}{fraction}"

/-- The quotient rounded to a natural number, a half going to the even
neighbour. -/
def roundEven (num den : Nat) : Nat :=
  let q := num / den
  let r := num % den
  if 2 * r > den || (2 * r == den && q % 2 == 1) then q + 1 else q

/-- The quotient with a fixed number of places. -/
def fixed (places num den : Nat) : String := scaled places (roundEven (num * Nat.pow 10 places) den)

/-- Whether a quotient is written without loss with a number of places. -/
def endsWithin (places num den : Nat) : Bool := num * Nat.pow 10 places % den == 0

/-- The quotient with the fewest places, from one up to `limit`, that lose
nothing. -/
def exact (limit num den : Nat) : String :=
  let places := (List.range' 1 limit).find? fun places => endsWithin places num den
  fixed (places.getD limit) num den

end SaveRam.Decimal
