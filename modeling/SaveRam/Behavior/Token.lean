import SaveRam.Text.Numeral

/-!
# Tokens of behavior files

A behavior file is made of numerals between blanks.  `Token.scan` cuts a text
into tokens: at each place that is not blank it takes the longest numeral, or a
single character where no numeral starts.  A token has no value when it is no
numeral or when its numeral is too large.  Places are counted in bytes of the
UTF-8 text.
-/

namespace SaveRam

/-- A piece of a behavior file. -/
structure Token where
  /-- The byte at which the token starts. -/
  start : Nat
  /-- The characters of the token. -/
  text : List Char
  /-- The number that the token stands for. -/
  value : Option Int64
deriving DecidableEq

namespace Token

/-- The number of bytes of a text in UTF-8. -/
def byteLength (cs : List Char) : Nat := cs.foldr (fun c n => c.utf8Size + n) 0

/-- The byte behind the token. -/
def stop (t : Token) : Nat := t.start + byteLength t.text

/-- The characters that separate tokens: space, tab, carriage return, line feed,
vertical tab and form feed. -/
def isBlank (c : Char) : Bool :=
  c == ' ' || c == '\t' || c == '\r' || c == '\n' || c == '\x0b' || c == '\x0c'

/-! ## Numerals at the start of a text -/

/-- The characters that may stand in front of a number. -/
def isSign (c : Char) : Bool := c == '+' || c == '-'

/-- The longest unsigned numeral at the start of a text.  A `0x` counts only
with a digit behind it. -/
def unsigned : List Char → List Char
  | '0' :: x :: cs =>
    if (x == 'x' || x == 'X') && (cs.head?.any (Numeral.isDigit 16)) then
      '0' :: x :: cs.takeWhile (Numeral.isDigit 16)
    else
      '0' :: (x :: cs).takeWhile (Numeral.isDigit 8)
  | cs => cs.takeWhile (Numeral.isDigit 10)

/-- The longest numeral at the start of a text, empty when there is none. -/
def numeral : List Char → List Char
  | [] => []
  | c :: cs =>
    if isSign c then
      match unsigned cs with
      | [] => []
      | ds => c :: ds
    else
      unsigned (c :: cs)

/-- The unsigned numeral at the start of a text is a part of the text. -/
theorem unsigned_isPrefix (cs : List Char) : unsigned cs <+: cs := by
  fun_cases unsigned cs with
  | case1 x cs h =>
    simpa [List.cons_prefix_cons] using List.takeWhile_prefix _
  | case2 x cs h =>
    simpa [List.cons_prefix_cons] using List.takeWhile_prefix _
  | case3 cs h => exact List.takeWhile_prefix _

/-- The numeral at the start of a text is a part of the text. -/
theorem numeral_isPrefix (cs : List Char) : numeral cs <+: cs := by
  fun_cases numeral cs with
  | case1 => exact List.prefix_rfl
  | case2 c cs h hn => exact List.nil_prefix
  | case3 c cs h hn => simpa [List.cons_prefix_cons] using unsigned_isPrefix cs
  | case4 c cs h => exact unsigned_isPrefix (c :: cs)

/-! ## Scanning -/

/-- The token at the start of a text that does not begin with a blank. -/
def first (start : Nat) (c : Char) (cs : List Char) : Token :=
  match numeral (c :: cs) with
  | [] => ⟨start, [c], none⟩
  | text => ⟨start, text, Numeral.parse? text⟩

/-- A token takes at least one character, so that scanning comes to an end. -/
theorem length_first_pos (start : Nat) (c : Char) (cs : List Char) :
    0 < (first start c cs).text.length := by
  unfold first
  split
  · simp
  · next h => exact List.length_pos_iff.2 h

/-- The tokens of a text that starts at byte `start`. -/
def scanFrom (start : Nat) : List Char → List Token
  | [] => []
  | c :: cs =>
    if isBlank c then
      scanFrom (start + c.utf8Size) cs
    else
      let token := first start c cs
      token :: scanFrom token.stop ((c :: cs).drop token.text.length)
termination_by cs => cs.length
decreasing_by
  · simp
  · have := length_first_pos start c cs
    simp only [List.length_drop, List.length_cons]
    omega

/-- The tokens of a text. -/
def scan (text : String) : List Token := scanFrom 0 text.toList

end Token

end SaveRam
