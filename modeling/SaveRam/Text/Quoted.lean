import SaveRam.Text.Combining
import SaveRam.Text.Unprintable

/-!
# Quoted text

Text between double quotes in which every character can be seen.  Quotes and
backslashes get a backslash; the null character, tab, line feed and carriage
return have short escapes; combining characters and characters without a
printed form are written as their code point in hexadecimal.
-/

namespace SaveRam.Quoted

/-- The digits of a code point in lowercase hexadecimal, without leading
zeros. -/
def codePoint (c : Char) : List Char := Nat.toDigits 16 c.toNat

/-- The escape of a code point: `u` and its digits in braces. -/
def escapeCode (c : Char) : List Char := ['\\', 'u', '\x7b'] ++ codePoint c ++ ['\x7d']

/-- A character as it is written between quotes. -/
def char (c : Char) : List Char :=
  if c == '\x00' then ['\\', '0']
  else if c == '\t' then ['\\', 't']
  else if c == '\n' then ['\\', 'n']
  else if c == '\r' then ['\\', 'r']
  else if c == '"' || c == '\\' then ['\\', c]
  else if Combining.contains c || Unprintable.contains c then escapeCode c
  else [c]

/-- A text with its quotes. -/
def text (s : String) : String := String.ofList ('"' :: s.toList.flatMap char ++ ['"'])

end SaveRam.Quoted
