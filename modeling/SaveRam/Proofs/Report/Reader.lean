import SaveRam.Proofs.Numeral.Shown
import SaveRam.Proofs.Text.Lines
import SaveRam.Report.Text

/-!
# Reading a report

The text of a report shows the address of each group and, of each match, its
round, its pass and its window.  `Report.shown` is what is shown, in the order
of the text, and `Report.read?` finds it in the text again, however many digits
the numbers have.

* Fields.  A number stands at the left end of a column and ends where its digits
  end (`Columns.number?_alignLeft`); a window is sixteen bytes of two digits
  (`Window.read?_text`).
* Lines.  `Report.Line` is a line of a report, `Report.Line.chars` how it is
  written and `Report.Line.read?` how it is read.
* Texts.  `Report.toList_text` divides the text of a report into lines, and
  `Report.Line.groups?` puts the lines under their headings.

`Report.read?_text` is the result, and `Report.text_inj` follows from it.
-/

namespace SaveRam

/-! ## Fields -/

/-- What is known to stand in front is taken away. -/
theorem isPrefixOf?_append (front cs : List Char) : front.isPrefixOf? (front ++ cs) = some cs :=
  List.isPrefixOf?_eq_some_iff_append_eq.2 rfl

namespace Columns

/-- The number at the left end of a column, with what stands behind the spaces
after it. -/
def number? (cs : List Char) : Option (Nat × List Char) :=
  (Numeral.front? 10 cs).map fun (n, cs) => (n, cs.dropWhile (· = ' '))

/-- A number in a column is read, also if it is wider than the column. -/
theorem number?_alignLeft (width n gap : Nat) {cs : List Char} (h : cs.head? ≠ some ' ') :
    number? ((alignLeft width (toString n)).toList ++ (List.replicate (gap + 1) ' ' ++ cs)) =
      some (n, cs) := by
  have hspaces (k : Nat) : (List.replicate k ' ' ++ cs).dropWhile (· = ' ') = cs := by
    rw [List.dropWhile_append_of_pos fun c hc => decide_eq_true (List.eq_of_mem_replicate hc)]
    cases cs with
    | nil => rfl
    | cons c cs => exact List.dropWhile_cons_of_neg (by simpa using h)
  have hgap : fill width (toString n).toList.length ++ (List.replicate (gap + 1) ' ' ++ cs) =
      ' ' :: (List.replicate (width - (toString n).toList.length + gap) ' ' ++ cs) := by
    rw [fill, ← List.append_assoc, List.replicate_append_replicate, ← Nat.add_assoc,
      List.replicate_succ, List.cons_append]
  rw [number?, alignLeft, String.toList_ofList, List.append_assoc, hgap,
    Numeral.front?_append (by omega) (Numeral.toString_ne_nil n) (Numeral.digits_toString n)
      (by decide), Option.map_some]
  exact congrArg (fun cs => some (n, cs)) (hspaces (_ + 1))

end Columns

namespace Hex

theorem toList_spaced (bytes : List UInt8) :
    (spaced bytes).toList = bytes.flatMap fun b => digits 'a' 2 b.toNat ++ [' '] := by
  rw [spaced, String.toList_join, List.flatMap_map]
  refine List.flatMap_congr fun b _ => ?_
  show (byte b ++ " ").toList = _
  rw [String.toList_append, toList_byte]
  rfl

/-- Bytes, each followed by a space. -/
def spaced? : (count : Nat) → List Char → Option (List UInt8)
  | 0, [] => some []
  | 0, _ :: _ => none
  | count + 1, cs => do
    let (n, cs) ← Numeral.front? 16 cs
    let cs ← [' '].isPrefixOf? cs
    let bytes ← spaced? count cs
    return UInt8.ofNat n :: bytes

theorem front?_digits {letterA c : Char} (hletter : letterA = 'a' ∨ letterA = 'A') {width n : Nat}
    (hn : n < 16 ^ (width + 1)) (hc : Numeral.isDigit 16 c = false) (cs : List Char) :
    Numeral.front? 16 (digits letterA (width + 1) n ++ c :: cs) = some (n, c :: cs) := by
  have hdigits := Numeral.digits_hex hletter (width + 1) n
  rw [Nat.mod_eq_of_lt hn] at hdigits
  refine Numeral.front?_append (by omega) ?_ hdigits hc cs
  exact List.ne_nil_of_length_eq_add_one (length_digits letterA (width + 1) n)

/-- Bytes are read back. -/
theorem spaced?_spaced (bytes : List UInt8) :
    spaced? bytes.length (spaced bytes).toList = some bytes := by
  rw [toList_spaced]
  induction bytes with
  | nil => rfl
  | cons b bytes ih =>
    have hb : b.toNat < 16 ^ 2 := b.toNat_lt
    have hspace (cs : List Char) : [' '].isPrefixOf? (' ' :: cs) = some cs :=
      isPrefixOf?_append [' '] cs
    rw [List.flatMap_cons, List.append_assoc, List.singleton_append, List.length_cons, spaced?,
      front?_digits (.inl rfl) hb (by decide)]
    simp only [Option.bind_eq_bind, Option.bind_some, hspace, ih, UInt8.ofNat_toNat,
      Option.pure_def]

theorem not_mem_spaced {c : Char} (hc : Numeral.isDigit 16 c = false) (hspace : c ≠ ' ')
    (bytes : List UInt8) : c ∉ (spaced bytes).toList := by
  rw [toList_spaced, List.mem_flatMap]
  rintro ⟨b, -, h⟩
  rcases List.mem_append.1 h with h | h
  · exact not_mem_digits (.inl rfl) hc 2 b.toNat h
  · exact hspace (List.mem_singleton.1 h)

end Hex

namespace Window

/-- The window that a text shows. -/
def read? (cs : List Char) : Option Window :=
  (Hex.spaced? 16 cs).bind fun bytes =>
    if h : bytes.toArray.size = 16 then some ⟨bytes.toArray, h⟩ else none

theorem read?_text (w : Window) : read? w.text.toList = some w := by
  have hread : Hex.spaced? 16 w.text.toList = some w.toList := by
    have hbytes := Hex.spaced?_spaced w.toList
    rwa [Vector.length_toList] at hbytes
  rw [read?, hread, Option.bind_some, dif_pos (by simp)]
  rfl

/-- The text of a window does not begin with a space. -/
theorem head?_text (w : Window) : w.text.toList.head? ≠ some ' ' := by
  intro hspace
  have hread := w.read?_text
  obtain ⟨cs, hcs⟩ := List.head?_eq_some_iff.1 hspace
  rw [hcs] at hread
  cases hread

end Window

/-- What the text of a report shows of a match. -/
structure Sighting where
  round : Nat
  pass : Nat
  window : Window
deriving DecidableEq

/-- What is shown of a match. -/
def Match.sighting (m : Match) : Sighting := ⟨m.round, m.pass, m.window⟩

namespace Report

/-- What the text of a report shows: the groups in their order. -/
def shown (r : Report) : List (Address × List Sighting) :=
  r.groups.map fun (address, group) => (address, group.map Match.sighting)

/-! ## Lines -/

/-- A line of the text of a report. -/
inductive Line where
  /-- The line above a group. -/
  | heading (address : Address)
  /-- The line of a match. -/
  | sighting (seen : Sighting)

namespace Line

/-- The characters of a heading. -/
def headingChars (address : Address) : List Char :=
  ['[', '[', ' ', '$'] ++ (Hex.digits 'A' 4 address.toNat ++ [' ', ']', ']'])

/-- The characters of the line of a match. -/
def sightingChars (seen : Sighting) : List Char :=
  [' ', ' ', 'H', 'i', '='] ++ ((Columns.alignLeft 4 (toString seen.round)).toList ++ ([' '] ++
    (['L', 'o', '='] ++ ((Columns.alignLeft 3 (toString seen.pass)).toList ++
      ([' ', ' ', ' ', ' '] ++ seen.window.text.toList)))))

/-- The characters of a line. -/
def chars : Line → List Char
  | .heading address => headingChars address
  | .sighting seen => sightingChars seen

/-- The address in a heading. -/
def address? (cs : List Char) : Option Address := do
  let cs ← ['[', '[', ' ', '$'].isPrefixOf? cs
  let (n, cs) ← Numeral.front? 16 cs
  if cs = [' ', ']', ']'] then some (UInt16.ofNat n) else none

/-- What the line of a match shows. -/
def sighting? (cs : List Char) : Option Sighting := do
  let cs ← [' ', ' ', 'H', 'i', '='].isPrefixOf? cs
  let (round, cs) ← Columns.number? cs
  let cs ← ['L', 'o', '='].isPrefixOf? cs
  let (pass, cs) ← Columns.number? cs
  let window ← Window.read? cs
  return ⟨round, pass, window⟩

/-- The line with the given characters. -/
def read? (cs : List Char) : Option Line :=
  ((address? cs).map heading).or ((sighting? cs).map sighting)

theorem address?_headingChars (address : Address) :
    address? (headingChars address) = some address := by
  have haddress : address.toNat < 16 ^ 4 := address.toNat_lt
  have hnumber : Numeral.front? 16 (Hex.digits 'A' 4 address.toNat ++ [' ', ']', ']']) =
      some (address.toNat, [' ', ']', ']']) := Hex.front?_digits (.inr rfl) haddress (by decide) _
  simp only [address?, headingChars, isPrefixOf?_append, Option.bind_eq_bind, Option.bind_some,
    hnumber, if_true, UInt16.ofNat_toNat]

theorem sighting?_sightingChars (seen : Sighting) : sighting? (sightingChars seen) = some seen := by
  have hround (cs : List Char) :
      Columns.number? ((Columns.alignLeft 4 (toString seen.round)).toList ++
        ([' '] ++ (['L', 'o', '='] ++ cs))) = some (seen.round, ['L', 'o', '='] ++ cs) :=
    Columns.number?_alignLeft 4 seen.round 0 (by simp)
  have hpass :
      Columns.number? ((Columns.alignLeft 3 (toString seen.pass)).toList ++
        ([' ', ' ', ' ', ' '] ++ seen.window.text.toList)) =
          some (seen.pass, seen.window.text.toList) :=
    Columns.number?_alignLeft 3 seen.pass 3 seen.window.head?_text
  simp only [sighting?, sightingChars, isPrefixOf?_append, Option.bind_eq_bind, Option.bind_some,
    hround, hpass, seen.window.read?_text, Option.pure_def]

/-- A line is read back. -/
theorem read?_chars (l : Line) : read? l.chars = some l := by
  cases l with
  | heading address => rw [chars, read?, address?_headingChars, Option.map_some, Option.some_or]
  | sighting seen =>
    have hheading : address? (sightingChars seen) = none := rfl
    rw [chars, read?, hheading, Option.map_none, Option.none_or, sighting?_sightingChars,
      Option.map_some]

theorem newline_not_mem_chars (l : Line) : '\n' ∉ l.chars := by
  have hcolumn (width n : Nat) : '\n' ∉ (Columns.alignLeft width (toString n)).toList :=
    Columns.not_mem_alignLeft (by decide) (by decide) width n
  cases l with
  | heading address =>
    have haddress : '\n' ∉ Hex.digits 'A' 4 address.toNat :=
      Hex.not_mem_digits (.inr rfl) (by decide) 4 address.toNat
    rw [chars, headingChars]
    simp only [List.mem_append, not_or]
    exact ⟨by decide, haddress, by decide⟩
  | sighting seen =>
    have hwindow : '\n' ∉ seen.window.text.toList :=
      Hex.not_mem_spaced (by decide) (by decide) seen.window.toList
    rw [chars, sightingChars]
    simp only [List.mem_append, not_or]
    exact ⟨by decide, hcolumn 4 seen.round, by decide, by decide, hcolumn 3 seen.pass, by decide,
      hwindow⟩

/-! ## Texts -/

/-- The lines of a report that shows some groups. -/
def ofGroups (groups : List (Address × List Sighting)) : List Line :=
  groups.flatMap fun (address, group) => heading address :: group.map sighting

/-- Puts a line above others: the matches that stand above the first heading,
and the groups. -/
def above : Line → List Sighting × List (Address × List Sighting) →
    List Sighting × List (Address × List Sighting)
  | .heading address, (group, groups) => ([], (address, group) :: groups)
  | .sighting seen, (group, groups) => (seen :: group, groups)

/-- The groups that some lines show, if the first one is a heading. -/
def groups? (ls : List Line) : Option (List (Address × List Sighting)) :=
  match ls.foldr above ([], []) with
  | ([], groups) => some groups
  | (_ :: _, _) => none

theorem foldr_above_sighting (group : List Sighting) (below) :
    (group.map sighting).foldr above below = (group ++ below.1, below.2) := by
  induction group with
  | nil => rfl
  | cons seen group ih =>
    rw [List.map_cons, List.foldr_cons, ih]
    rfl

theorem foldr_above_ofGroups (groups : List (Address × List Sighting)) :
    (ofGroups groups).foldr above ([], []) = ([], groups) := by
  induction groups with
  | nil => rfl
  | cons g groups ih =>
    obtain ⟨address, group⟩ := g
    show above (.heading address)
      ((group.map sighting ++ ofGroups groups).foldr above ([], [])) = _
    rw [List.foldr_append, ih, foldr_above_sighting, List.append_nil]
    rfl

/-- The lines of groups tell the groups. -/
theorem groups?_ofGroups (groups : List (Address × List Sighting)) :
    groups? (ofGroups groups) = some groups := by
  rw [groups?, foldr_above_ofGroups]

theorem length_ofGroups (groups : List (Address × List Sighting)) :
    (ofGroups groups).length = groups.length + (groups.map fun g => g.2.length).sum := by
  induction groups with
  | nil => rfl
  | cons g groups ih =>
    have hcons : ofGroups (g :: groups) = heading g.1 :: g.2.map sighting ++ ofGroups groups := rfl
    rw [hcons, List.length_append, List.length_cons, List.length_map, ih, List.length_cons,
      List.map_cons, List.sum_cons]
    omega

end Line

theorem toList_heading (address : Address) :
    (heading address).toList = Line.headingChars address ++ ['\n'] := by
  show ("[[ $" ++ Hex.upper 4 address.toNat ++ " ]]\n").toList = _
  simp only [String.toList_append, Hex.toList_upper, Line.headingChars, List.append_assoc]
  rfl

theorem toList_line (m : Match) :
    m.line.toList = Line.sightingChars m.sighting ++ ['\n'] := by
  show ("  Hi=" ++ Columns.alignLeft 4 (toString m.round) ++ " Lo=" ++
    Columns.alignLeft 3 (toString m.pass) ++ "    " ++ m.window.text ++ "\n").toList = _
  simp only [String.toList_append, Line.sightingChars, List.append_assoc]
  rfl

/-- The text of a report has a line for each address and one for each match. -/
theorem toList_text (r : Report) :
    r.text.toList = Lines.toText ((Line.ofGroups r.shown).map Line.chars) := by
  rw [text, String.toList_join, Lines.toText, Line.ofGroups, shown, List.flatMap_map,
    List.flatMap_map, List.flatMap_map, List.flatMap_assoc]
  refine List.flatMap_congr fun ⟨address, group⟩ _ => ?_
  show (groupText address group).toList = _
  rw [groupText, String.toList_append, toList_heading, String.toList_join, List.flatMap_map]
  simp only [List.flatMap_cons, List.flatMap_map, toList_line, Line.chars]

theorem ofText_text (r : Report) :
    Lines.ofText r.text.toList = (Line.ofGroups r.shown).map Line.chars := by
  rw [toList_text]
  refine Lines.ofText_toText fun l hl => ?_
  obtain ⟨line, -, rfl⟩ := List.mem_map.1 hl
  exact line.newline_not_mem_chars

/-- What a text shows, if it is the text of a report. -/
def read? (text : String) : Option (List (Address × List Sighting)) :=
  ((Lines.ofText text.toList).mapM Line.read?).bind Line.groups?

/-- What a report shows is found in its text. -/
theorem read?_text (r : Report) : read? r.text = some r.shown := by
  have hlines (ls : List Line) : (ls.map Line.chars).mapM Line.read? = some ls := by
    rw [List.mapM_map, Function.comp_def]
    simp only [Line.read?_chars]
    rw [← Option.pure_def, ← Option.pure_def, List.mapM_pure, List.map_id']
  rw [read?, ofText_text, hlines, Option.bind_some, Line.groups?_ofGroups]

/-- Numbers that are wider than their columns are read too. -/
example :
    read? ("[[ $0150 ]]\n" ++
        "  Hi=12345 Lo=1000    c3 50 01 00 00 00 00 00 00 00 00 00 00 00 00 00 \n") =
      some [(0x150,
        [⟨12345, 1000, #v[0xC3, 0x50, 0x01, 0, 0, 0, 0, 0, 0, 0, 0, 0, 0, 0, 0, 0]⟩])] :=
  rfl

/-- Exactly reports that show the same have the same text. -/
theorem text_inj {r q : Report} : r.text = q.text ↔ r.shown = q.shown := by
  constructor
  · intro h
    have hread := r.read?_text
    rw [h, q.read?_text] at hread
    exact (Option.some.inj hread).symm
  · intro h
    rw [← String.toList_inj, toList_text, toList_text, h]

/-- The lines of a text are counted by what it shows. -/
theorem length_ofText_text (r : Report) :
    (Lines.ofText r.text.toList).length =
      r.groups.length + (r.groups.map fun g => g.2.length).sum := by
  rw [ofText_text, List.length_map, Line.length_ofGroups, shown, List.length_map, List.map_map]
  simp only [Function.comp_def, List.length_map]

end Report

end SaveRam
