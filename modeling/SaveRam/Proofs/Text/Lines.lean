/-!
# Lines

A text is made of lines, each ended by a line feed.  `Lines.toText` puts lines
together and `Lines.ofText` takes a text apart.  Lines without a line feed of
their own are found again (`Lines.ofText_toText`), so a text that is written
line by line tells its lines.
-/

namespace SaveRam.Lines

/-- The text of some lines. -/
def toText (ls : List (List Char)) : List Char := ls.flatMap (· ++ ['\n'])

/-- The lines of a text with one more character in front. -/
def push (c : Char) (ls : List (List Char)) : List (List Char) :=
  if c = '\n' then [] :: ls
  else
    match ls with
    | [] => [[c]]
    | l :: ls => (c :: l) :: ls

/-- The lines of a text.  What stands behind the last line feed is a line too,
unless nothing stands there. -/
def ofText (cs : List Char) : List (List Char) := cs.foldr push []

theorem ofText_append {l : List Char} (h : '\n' ∉ l) (cs : List Char) :
    ofText (l ++ '\n' :: cs) = l :: ofText cs := by
  induction l with
  | nil => rfl
  | cons c l ih =>
    obtain ⟨hc, hl⟩ := List.ne_and_not_mem_of_not_mem_cons h
    show push c (ofText (l ++ '\n' :: cs)) = _
    rw [ih hl, push, if_neg hc.symm]

/-- Lines are found again in their text. -/
theorem ofText_toText {ls : List (List Char)} (h : ∀ l ∈ ls, '\n' ∉ l) :
    ofText (toText ls) = ls := by
  induction ls with
  | nil => rfl
  | cons l ls ih =>
    obtain ⟨hl, hls⟩ := List.forall_mem_cons.1 h
    show ofText ((l ++ ['\n']) ++ toText ls) = _
    rw [List.append_assoc, List.singleton_append, ofText_append hl, ih hls]

end SaveRam.Lines
