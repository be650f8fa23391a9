import SaveRam.Dump.Text
import SaveRam.Proofs.Dump.Observer
import SaveRam.Proofs.Dump.Resume
import SaveRam.Proofs.Report.Reader

/-!
# Reading a dump

The text of a dump has one line for the first window and two for every other one: the
number of the pass and, indented, the window.  `Dump.lines` are these lines, and
`Dump.ofText_text` finds them in the text.

`Dump.read?` reads the windows back, whatever their number (`Dump.read?_text`), so
different sequences of windows have different texts (`Dump.text_injective`).

`Machine.dump_observes` joins this with what a dump does to its machine: it runs the
machine and looks on, as long as there is room for the windows.
-/

namespace SaveRam

/-- A window is shown in one line. -/
theorem Window.newline_not_mem_text (w : Window) : '\n' ∉ w.text.toList :=
  Hex.not_mem_spaced (by decide) (by decide) w.toList

namespace Dump

/-! ## Lines -/

/-- The line with the number of a pass. -/
def headingChars (index : Nat) : List Char := s!"Iteration {index}:".toList

/-- The spaces in front of a window that stands under a number. -/
def indent : List Char := [' ', ' ', ' ', ' ']

/-- The lines of the windows after pass `index` and the passes behind it. -/
def passLines : (index : Nat) → List Window → List (List Char)
  | _, [] => []
  | index, w :: ws => headingChars index :: (indent ++ w.text.toList) :: passLines (index + 1) ws

/-- The lines of a dump. -/
def lines : List Window → List (List Char)
  | [] => []
  | initial :: rest => initial.text.toList :: passLines 0 rest

theorem indent_append (text : String) : indent ++ text.toList = s!"    {text}".toList :=
  (String.toList_append (s := "    ")).symm

theorem headingChars_eq (index : Nat) :
    headingChars index = "Iteration ".toList ++ ((toString index).toList ++ [':']) := by
  show ("Iteration " ++ toString index ++ ":").toList = _
  simp only [String.toList_append, List.append_assoc]
  rfl

theorem newline_not_mem_headingChars (index : Nat) : '\n' ∉ headingChars index := by
  have hdigits : '\n' ∉ (toString index).toList :=
    (Numeral.digits_toString index).not_mem (by omega) (by decide)
  rw [headingChars_eq]
  simp only [List.mem_append, not_or]
  exact ⟨by decide, hdigits, by decide⟩

theorem newline_not_mem_passLines (index : Nat) (ws : List Window) :
    ∀ l ∈ passLines index ws, '\n' ∉ l := by
  induction ws generalizing index with
  | nil => exact fun l hl => nomatch hl
  | cons w ws ih =>
    have hshown : '\n' ∉ indent ++ w.text.toList := by
      rw [List.mem_append, not_or]
      exact ⟨by decide, w.newline_not_mem_text⟩
    rw [passLines, List.forall_mem_cons, List.forall_mem_cons]
    exact ⟨newline_not_mem_headingChars index, hshown, ih (index + 1)⟩

theorem newline_not_mem_lines (ws : List Window) : ∀ l ∈ lines ws, '\n' ∉ l := by
  cases ws with
  | nil => exact fun l hl => nomatch hl
  | cons w ws =>
    rw [lines, List.forall_mem_cons]
    exact ⟨w.newline_not_mem_text, newline_not_mem_passLines 0 ws⟩

theorem length_passLines (index : Nat) (ws : List Window) :
    (passLines index ws).length = 2 * ws.length := by
  induction ws generalizing index with
  | nil => rfl
  | cons w ws ih =>
    rw [passLines, List.length_cons, List.length_cons, ih, List.length_cons]
    omega

/-- The windows are numbered in their order. -/
theorem getElem?_passLines {ws : List Window} {k : Nat} (hk : k < ws.length) (index : Nat) :
    (passLines index ws)[2 * k]? = some (headingChars (index + k)) ∧
      (passLines index ws)[2 * k + 1]? = some (indent ++ ws[k].text.toList) := by
  induction ws generalizing k index with
  | nil => cases hk
  | cons w ws ih =>
    cases k with
    | zero => exact ⟨rfl, rfl⟩
    | succ k =>
      have hrest := ih (Nat.lt_of_succ_lt_succ hk) (index + 1)
      rw [Nat.add_right_comm, Nat.add_assoc] at hrest
      exact hrest

theorem length_lines {ws : List Window} {n : Nat} (h : ws.length = n + 1) :
    (lines ws).length = 2 * n + 1 := by
  cases ws with
  | nil => cases h
  | cons w ws =>
    rw [lines, List.length_cons, length_passLines, Nat.succ.inj h]

theorem getElem?_lines {ws : List Window} {k : Nat} (hk : k + 1 < ws.length) :
    (lines ws)[2 * k + 1]? = some (headingChars k) ∧
      (lines ws)[2 * k + 2]? = some (indent ++ ws[k + 1].text.toList) := by
  cases ws with
  | nil => cases hk
  | cons w ws =>
    have hpass := getElem?_passLines (Nat.lt_of_succ_lt_succ hk) 0
    rw [Nat.zero_add] at hpass
    exact hpass

/-! ## Texts -/

theorem toList_entry (index : Nat) (w : Window) :
    (entry index w).toList =
      headingChars index ++ ['\n'] ++ (indent ++ w.text.toList ++ ['\n']) := by
  rw [headingChars_eq]
  show ("Iteration " ++ toString index ++ ":\n    " ++ w.text ++ "\n").toList = _
  simp only [String.toList_append, List.append_assoc]
  rfl

theorem toText_passLines (index : Nat) (ws : List Window) :
    Lines.toText (passLines index ws) =
      (ws.zipIdx index).flatMap fun (w, i) => (entry i w).toList := by
  induction ws generalizing index with
  | nil => rfl
  | cons w ws ih =>
    rw [passLines, List.zipIdx_cons, List.flatMap_cons, ← ih]
    simp only [toList_entry, Lines.toText, List.flatMap_cons, List.append_assoc]

theorem toList_text (ws : List Window) : (text ws).toList = Lines.toText (lines ws) := by
  cases ws with
  | nil => rfl
  | cons w ws =>
    show (w.text ++ "\n" ++ String.join (ws.mapIdx entry)).toList =
      w.text.toList ++ ['\n'] ++ Lines.toText (passLines 0 ws)
    rw [toText_passLines, String.toList_append, String.toList_append, String.toList_join,
      List.mapIdx_eq_zipIdx_map, List.flatMap_map]
    rfl

/-- A dump has its lines. -/
theorem ofText_text (ws : List Window) : Lines.ofText (text ws).toList = lines ws := by
  rw [toList_text, Lines.ofText_toText (newline_not_mem_lines ws)]

/-! ## Reading -/

/-- The windows in the lines behind the first one. -/
def passes? : List (List Char) → Option (List Window)
  | [] => some []
  | [_] => none
  | _ :: shown :: rest => do
    let cs ← indent.isPrefixOf? shown
    let w ← Window.read? cs
    let ws ← passes? rest
    return w :: ws

/-- The windows in the lines of a dump. -/
def windows? : List (List Char) → Option (List Window)
  | [] => some []
  | initial :: rest => do
    let w ← Window.read? initial
    let ws ← passes? rest
    return w :: ws

/-- The windows that a text shows, if it is the text of a dump. -/
def read? (text : String) : Option (List Window) := windows? (Lines.ofText text.toList)

theorem passes?_passLines (index : Nat) (ws : List Window) :
    passes? (passLines index ws) = some ws := by
  induction ws generalizing index with
  | nil => rfl
  | cons w ws ih =>
    rw [passLines, passes?, isPrefixOf?_append]
    simp only [Option.bind_eq_bind, Option.bind_some, w.read?_text, ih, Option.pure_def]

/-- The windows of a dump are found in its text. -/
theorem read?_text (ws : List Window) : read? (text ws) = some ws := by
  rw [read?, ofText_text]
  cases ws with
  | nil => rfl
  | cons w ws =>
    rw [lines, windows?, w.read?_text, passes?_passLines]
    rfl

theorem text_injective : Function.Injective text := by
  intro ws ws' h
  have hread := read?_text ws
  rw [h, read?_text] at hread
  exact (Option.some.inj hread).symm

end Dump

/-! ## Dumps and runs -/

namespace Machine

variable {m : Machine} {n : Nat} {ws : List Window}

theorem getElem?_windows (m : Machine) {n k : Nat} (hk : k ≤ n) :
    (m.windows n)[k]? = some (m.after k).memory.window := by
  rw [windows, List.getElem?_map, List.getElem?_range (Nat.lt_succ_of_le hk)]
  rfl

/-- The windows of a dump that succeeds, and the run beside it. -/
theorem windows_of_dump (h : (m.dump n).2 = .ok ws) : (m.run n).2 = none ∧ ws = m.windows n := by
  rw [dump_eq_run m (fits_of_dump h)] at h
  cases hrun : (m.run n).2 with
  | none =>
    rw [hrun] at h
    exact ⟨rfl, (Except.ok.inj h).symm⟩
  | some fault =>
    rw [hrun] at h
    cases h

/-- A run that succeeds also succeeds with fewer passes. -/
theorem run_of_le {k : Nat} (hk : k ≤ n) (h : (m.run n).2 = none) :
    m.run k = (m.after k, none) := by
  rcases run_eq_none_iff.1 h with rfl | hwf
  · obtain rfl : k = 0 := by omega
    rfl
  · exact run_of_wellFormed hwf k

/-- A dump that ends is a run with someone who looks on.  It ends as the run does, well
or with the same fault, and leaves the machine as the run does.  This holds for less
than `2 ^ 59` windows; a dump of more of them is given up, and leaves the machine as it
was.  When a dump ends well, it shows the windows after all shorter runs in order.  Its
text has a line for the first window and two lines for every pass: the number of the
pass, from zero on, and the window.  The texts of different sequences of windows are
different. -/
theorem dump_observes (m : Machine) (n : Nat) :
    (n + 1 < 2 ^ 59 →
      (m.dump n).1 = (m.run n).1 ∧
      ((∃ ws, (m.dump n).2 = .ok ws) ↔ (m.run n).2 = none) ∧
      ∀ fault, (m.dump n).2 = .error (.fault fault) ↔ (m.run n).2 = some fault) ∧
    (2 ^ 59 ≤ n + 1 → n + 1 < UInt64.size → m.dump n = (m, .error .tooLong)) ∧
    (∀ ws, (m.dump n).2 = .ok ws →
      (ws.length = n + 1 ∧
        ∀ k ≤ n, (m.run k).2 = none ∧ ws[k]? = some (m.run k).1.memory.window) ∧
      let lines := Lines.ofText (Dump.text ws).toList
      lines.length = 2 * n + 1 ∧
        ∀ k < n, lines[2 * k + 1]? = some s!"Iteration {k}:".toList ∧
          lines[2 * k + 2]? = ws[k + 1]?.map fun w => s!"    {w.text}".toList) ∧
    ∀ ws ws' : List Window, Dump.text ws = Dump.text ws' → ws = ws' := by
  refine ⟨fun hn => ?_, fun hlow hsize => ?_, fun ws h => ?_,
    fun ws ws' h => Dump.text_injective h⟩
  · rw [dump_eq_run m (Dump.fits_of_lt hn)]
    refine ⟨rfl, ?_, fun fault => ?_⟩ <;> cases (m.run n).2 <;> simp
  · refine dump_of_not_fits (fun hn => ?_) m
    exact absurd ((Dump.fits_iff hsize).1 hn) (Nat.not_lt_of_le hlow)
  · obtain ⟨hrun, rfl⟩ := windows_of_dump h
    have hlength := m.length_windows n
    rw [Dump.ofText_text]
    refine ⟨⟨hlength, fun k hk => ?_⟩, Dump.length_lines hlength, fun k hk => ?_⟩
    · rw [run_of_le hk hrun]
      exact ⟨rfl, m.getElem?_windows hk⟩
    · have hk' : k + 1 < (m.windows n).length := by omega
      obtain ⟨hheading, hwindow⟩ := Dump.getElem?_lines hk'
      rw [hwindow, List.getElem?_eq_getElem hk', Option.map_some]
      exact ⟨hheading, congrArg some (Dump.indent_append _)⟩

/-- Two passes that swap the halves of a byte, the same program with an unknown
operation behind it, and a dump of both that is too long. -/
theorem dump_observes_swap :
    let m : Machine := .start (.ofBytes [0x3C]) [⟨2, 0xA7D0, 0⟩]
    let n : Machine := m.withProgram [⟨2, 0xA7D0, 0⟩, ⟨9, 0, 0⟩]
    (∃ ws, (m.dump 2).2 = .ok ws ∧ ws.length = 3 ∧
      (Lines.ofText (Dump.text ws).toList)[3]? = some "Iteration 1:".toList) ∧
    ((n.dump 2).2 = .error (.fault (.unknownOperation 1 9)) ∧ (n.dump 2).1 = (n.run 2).1) ∧
    (m.dump (2 ^ 60)).1 = m := by
  intro m n
  have hm : (m.run 2).2 = none := run_eq_none_iff.2 (.inr (by decide))
  have hn : (n.run 2).2 = some (.unknownOperation 1 9) := by
    have hfault : n.program.fault? = some (.unknownOperation 1 9) := by decide
    rw [run_of_fault hfault (by decide), pass_of_fault hfault]
  obtain ⟨hends, -, hwindows, -⟩ := dump_observes m 2
  obtain ⟨-, hok, -⟩ := hends (by decide)
  obtain ⟨hends', -⟩ := dump_observes n 2
  obtain ⟨hmachine, -, herror⟩ := hends' (by decide)
  obtain ⟨-, hlong, -⟩ := dump_observes m (2 ^ 60)
  obtain ⟨ws, hws⟩ := hok.2 hm
  obtain ⟨⟨hlength, -⟩, -, hlines⟩ := hwindows ws hws
  refine ⟨⟨ws, hws, hlength, (hlines 1 (by decide)).1⟩, ⟨(herror _).2 hn, hmachine⟩, ?_⟩
  rw [hlong (by decide) (by decide)]

/-- A dump of `2 ^ 60` passes does not end as the run does: neither for a program
whose first triple is unknown, nor for one whose passes succeed. -/
theorem dump_ne_run_of_tooLong :
    let n := 2 ^ 60
    let bad : Machine := .start .blank [⟨9, 0, 0⟩]
    let good : Machine := .start .blank [⟨2, 0xA7D0, 0⟩]
    n + 1 < UInt64.size ∧
      ((bad.run n).2 = some (.unknownOperation 0 9) ∧
        (bad.dump n).2 ≠ .error (.fault (.unknownOperation 0 9))) ∧
      (good.run n).2 = none ∧ ¬ ∃ ws, (good.dump n).2 = .ok ws := by
  intro n bad good
  have hn : ¬ Dump.Fits n := by decide
  have hfault : bad.program.fault? = some (.unknownOperation 0 9) := by decide
  refine ⟨by decide, ⟨?_, ?_⟩, run_eq_none_iff.2 (.inr (by decide)), ?_⟩
  · rw [run_of_fault hfault (by decide), pass_of_fault hfault]
  · rw [dump_of_not_fits hn]
    exact nofun
  · rintro ⟨ws, hws⟩
    exact hn (fits_of_dump hws)

end Machine

end SaveRam
