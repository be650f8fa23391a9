import SaveRam.Window.Text

/-!
# The text of a dump

A dump shows the window before the first pass and then the window after each
pass under a line with the number of the pass.
-/

namespace SaveRam.Dump

/-- The lines of the window after pass `index`. -/
def entry (index : Nat) (w : Window) : String := s!"Iteration {index}:\n    {w.text}\n"

/-- The text of a sequence of windows, the first one before any pass. -/
def text : List Window → String
  | [] => ""
  | initial :: rest => s!"{initial.text}\n" ++ String.join (rest.mapIdx entry)

end SaveRam.Dump
