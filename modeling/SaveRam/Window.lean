import SaveRam.Digest
import SaveRam.Memory

/-!
# The signature window

Sixteen bytes of the save memory, at the addresses `0xA7D0` to `0xA7DF`, are
what the game jumps through.  `Window.jump?` looks for a jump instruction among
the first fourteen of them, so that the two address bytes after it are inside
the window.  `Window.digest` is the hash of the first ten bytes.
-/

namespace SaveRam

/-- The sixteen bytes of the signature window. -/
abbrev Window := Vector UInt8 16

/-- The cell of the `i`-th byte of the window. -/
def Window.cell (i : Fin 16) : Cell := ⟨0x7D0 + i.val, by omega⟩

namespace Memory

/-- The signature window of a memory. -/
def window (m : Memory) : Window := Vector.ofFn fun i => m.get (Window.cell i)

end Memory

/-- A jump instruction found in a window: where it stands and where it leads. -/
structure Jump where
  position : Nat
  address : Address
deriving DecidableEq

namespace Window

/-- The first ten bytes, on which the digest is computed. -/
def digested (w : Window) : List UInt8 := w.toList.take 10

/-- The digest of the first ten bytes. -/
def digest (w : Window) : Digest := Digest.ofBytes w.digested

/-- The operation codes of the two absolute jumps: `0xC3` always jumps, `0xD2`
jumps when the carry flag is clear. -/
def isJump (byte : UInt8) : Bool := byte == 0xD2 || byte == 0xC3

/-- The address made of a low and a high byte. -/
def addressOf (lo hi : UInt8) : Address := lo.toUInt16 ||| (hi.toUInt16 <<< 8)

/-- The byte at one of the first fourteen positions. -/
def code (w : Window) (i : Fin 14) : UInt8 := w[i.val]

/-- The address in the two bytes after one of the first fourteen positions. -/
def target (w : Window) (i : Fin 14) : Address := addressOf w[i.val + 1] w[i.val + 2]

/-- The first jump instruction in the window. -/
def jump? (w : Window) : Option Jump :=
  ((List.finRange 14).find? fun i => isJump (w.code i)).map fun i => ⟨i.val, w.target i⟩

end Window

/-- The digest of the window of a memory. -/
def Memory.digest (m : Memory) : Digest := m.window.digest

/-! ## The window after an operation -/

namespace Memory

theorem window_set_cell (m : Memory) (i : Fin 16) (byte : UInt8) :
    (m.set (Window.cell i) byte).window = m.window.set i byte := by
  apply Vector.ext
  intro j hj
  have hcell : Window.cell i = Window.cell ⟨j, hj⟩ ↔ i.val = j := by
    simp only [Window.cell, Fin.mk.injEq]
    omega
  simp only [window, Vector.getElem_ofFn, Vector.getElem_set, get_set, hcell]

theorem window_blank : blank.window = Vector.replicate 16 0 := by
  apply Vector.ext
  intro j hj
  simp only [window, Vector.getElem_ofFn, Vector.getElem_replicate, get, blank,
    Fin.getElem_fin]

end Memory

end SaveRam
