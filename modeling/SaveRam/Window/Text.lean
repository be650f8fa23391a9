import SaveRam.Text.Hex
import SaveRam.Window

/-!
# The text of a window

A window is written as its sixteen bytes in hexadecimal, each followed by a
space.
-/

namespace SaveRam

/-- The bytes of a window in hexadecimal. -/
def Window.text (w : Window) : String := Hex.spaced w.toList

/-- A memory in one line that shows its window, bytes in base ten. -/
def Memory.summary (m : Memory) : String :=
  let bytes := ", ".intercalate (m.window.toList.map fun b => toString b.toNat)
  s!"Sram \x7b window: [{bytes}], .. \x7d"

end SaveRam
