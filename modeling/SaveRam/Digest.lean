import SaveRam.Text.Hex

/-!
# Digests

The cartridge checks bytes with a 32-bit hash: starting from 5381 it multiplies
by 33, written as a shift and an addition, and adds the next byte.
-/

namespace SaveRam

/-- A 32-bit hash value. -/
abbrev Digest := UInt32

namespace Digest

/-- Takes one more byte into a hash. -/
def push (hash : Digest) (byte : UInt8) : Digest := (hash <<< 5) + hash + byte.toUInt32

/-- The hash of a sequence of bytes. -/
def ofBytes (bytes : List UInt8) : Digest := bytes.foldl push 5381

/-- Eight lowercase hexadecimal digits. -/
def text (d : Digest) : String := Hex.lower 8 d.toNat

end Digest

end SaveRam
