import Std.Data.String.ToInt
import SaveRam.Proofs.Numeral.Shown
import SaveRam.Proofs.Pass.Effect
import SaveRam.Proofs.Text.Lines

/-!
# What a listing tells

A listing shows the instructions of a program and, where a triple stands for no
instruction, the triple itself.  Nothing else of a program matters to a machine,
so programs with the same listing do the same.

There are four groups.

* The text of an instruction.  The mnemonic is known from its front
  (`Opcode.mnemonic_append_inj`), the operands have fixed widths, and so the
  text tells the instruction (`Instruction.text_inj`).
* The text of a triple.  `Triple.Alike` says that two triples stand for the same
  instruction, or are the same and stand for none; that is when their texts are
  equal (`Triple.text_inj`).
* Listings.  `Program.toList_listing` divides a listing into lines, and
  `Program.listing_inj` compares two programs line by line.
* Passes.  A pass looks at a triple only through the instruction that it stands
  for (`Program.passFrom_congr`), and so does a run (`Machine.run_congr`).

`Program.listing_eq_iff` puts them together.
-/

namespace SaveRam

/-- A text up to the first separator is known from the whole text. -/
theorem append_separator_inj {α : Type} {c : α} {xs ys zs ws : List α} (hx : c ∉ xs)
    (hy : c ∉ ys) (h : xs ++ c :: zs = ys ++ c :: ws) : xs = ys ∧ zs = ws := by
  induction xs generalizing ys with
  | nil =>
    cases ys with
    | nil => exact ⟨rfl, (List.cons.inj h).2⟩
    | cons y ys =>
      obtain ⟨rfl, -⟩ := List.cons.inj h
      exact absurd List.mem_cons_self hy
  | cons x xs ih =>
    cases ys with
    | nil =>
      obtain ⟨rfl, -⟩ := List.cons.inj h
      exact absurd List.mem_cons_self hx
    | cons y ys =>
      obtain ⟨rfl, hrest⟩ := List.cons.inj h
      obtain ⟨rfl, hbehind⟩ := ih (List.not_mem_of_not_mem_cons hx)
        (List.not_mem_of_not_mem_cons hy) hrest
      exact ⟨rfl, hbehind⟩

/-! ## The text of an instruction -/

/-- No mnemonic begins as another one does. -/
theorem Opcode.mnemonic_append_inj {o p : Opcode} {xs ys : List Char}
    (h : o.mnemonic.toList ++ xs = p.mnemonic.toList ++ ys) : o = p ∧ xs = ys := by
  cases o <;> cases p <;> simp_all [mnemonic]

namespace Instruction

/-- The text behind the mnemonic of an instruction. -/
def operandText : Instruction Address → List Char
  | .init | .reset => []
  | .fill dst byte | .bitset dst byte =>
    ' ' :: '$' :: (Hex.digits 'a' 4 dst.toNat ++
      ',' :: ' ' :: '$' :: Hex.digits 'a' 2 byte.toNat)
  | .swap dst | .reverse dst => ' ' :: '$' :: Hex.digits 'a' 4 dst.toNat
  | .diff dst inverted =>
    ' ' :: '$' :: (Hex.digits 'a' 4 dst.toNat ++ if inverted then [',', ' ', 'i', 'n', 'v'] else [])
  | .xor dst src | .copy dst src =>
    ' ' :: '$' :: (Hex.digits 'a' 4 dst.toNat ++
      ',' :: ' ' :: '$' :: Hex.digits 'a' 4 src.toNat)

theorem toList_text (i : Instruction Address) :
    i.text.toList = i.opcode.mnemonic.toList ++ i.operandText := by
  cases i with
  | diff dst inverted => cases inverted <;> simp [text, operandText]
  | _ => simp [text, operandText]

/-- The operands of an operation are known from their text. -/
theorem operandText_inj {i j : Instruction Address} (hop : i.opcode = j.opcode)
    (h : i.operandText = j.operandText) : i = j := by
  cases i <;> cases j <;> cases hop
  case init.init | reset.reset => rfl
  case fill.fill | bitset.bitset =>
    simp only [operandText, List.cons.injEq, true_and] at h
    obtain ⟨rfl, hrest⟩ := Hex.word_append_inj h
    simp only [List.cons.injEq, true_and] at hrest
    rw [Hex.byte_inj hrest]
  case swap.swap | reverse.reverse =>
    simp only [operandText, List.cons.injEq, true_and] at h
    rw [Hex.word_inj h]
  case diff.diff inverted _ inverted' =>
    simp only [operandText, List.cons.injEq, true_and] at h
    obtain ⟨rfl, hrest⟩ := Hex.word_append_inj h
    cases inverted <;> cases inverted' <;> simp_all
  case xor.xor | copy.copy =>
    simp only [operandText, List.cons.injEq, true_and] at h
    obtain ⟨rfl, hrest⟩ := Hex.word_append_inj h
    simp only [List.cons.injEq, true_and] at hrest
    rw [Hex.word_inj hrest]

/-- An instruction is known from its text. -/
theorem text_inj {i j : Instruction Address} (h : i.text = j.text) : i = j := by
  have hlist := congrArg String.toList h
  rw [toList_text, toList_text] at hlist
  obtain ⟨hop, hoperands⟩ := Opcode.mnemonic_append_inj hlist
  exact operandText_inj hop hoperands

theorem newline_not_mem_text (i : Instruction Address) : '\n' ∉ i.text.toList := by
  have hhex (width n : Nat) : '\n' ∉ Hex.digits 'a' width n :=
    Hex.not_mem_digits (.inl rfl) (by decide) width n
  rw [toList_text, List.mem_append, not_or]
  constructor
  · cases i.opcode <;> decide
  · cases i with
    | diff dst inverted => cases inverted <;> simp [operandText, hhex]
    | _ => simp [operandText, hhex]

/-- A mnemonic begins with a letter. -/
theorem dot_not_prefix_text (i : Instruction Address) (cs : List Char) :
    ¬ ('.' :: cs) <+: i.text.toList := by
  rw [toList_text]
  cases i.opcode <;> simp [Opcode.mnemonic, List.cons_prefix_cons]

end Instruction

/-! ## The text of a triple -/

namespace Triple

/-- Triples that stand for the same instruction, or are the same and stand for
none. -/
def Alike (t u : Triple) : Prop :=
  (∃ i, t.decode = .ok i ∧ u.decode = .ok i) ∨
    (∃ e, t.decode = .error e) ∧ (∃ e, u.decode = .error e) ∧ t = u

theorem Alike.decode_eq {t u : Triple} (h : t.Alike u) : t.decode = u.decode := by
  rcases h with ⟨i, ht, hu⟩ | ⟨-, -, rfl⟩
  · rw [ht, hu]
  · rfl

/-- The text of a triple that stands for no instruction. -/
theorem toList_text_of_error {t : Triple} {e : UnknownOpcode} (h : t.decode = .error e) :
    t.text.toList = ".invalid".toList ++ ' ' :: ((number t.opcode).toList ++
      ' ' :: ((number t.param1).toList ++ ' ' :: (number t.param2).toList)) := by
  rw [text, h]
  simp

theorem text_of_ok {t : Triple} {i : Instruction Address} (h : t.decode = .ok i) :
    t.text = i.text := by
  rw [text, h]

theorem number_inj {m n : Int64} (h : (number m).toList = (number n).toList) : m = n := by
  have htext := String.toList_inj.1 h
  rw [number, number, Int.toString_eq_repr, Int.toString_eq_repr] at htext
  exact Int64.toInt_inj.1 (Int.repr_inj.1 htext)

theorem not_mem_number {c : Char} (hc : Numeral.isDigit 16 c = false) (hminus : c ≠ '-')
    (n : Int64) : c ∉ (number n).toList :=
  Numeral.not_mem_toString_int hc hminus n.toInt

/-- The numbers of a triple are known from their texts with spaces between. -/
theorem eq_of_toList_text {t u : Triple} {e e' : UnknownOpcode} (ht : t.decode = .error e)
    (hu : u.decode = .error e') (h : t.text = u.text) : t = u := by
  have hspace (n : Int64) : ' ' ∉ (number n).toList :=
    not_mem_number (by decide) (by decide) n
  have hlist := congrArg String.toList h
  rw [toList_text_of_error ht, toList_text_of_error hu] at hlist
  have hbehind := (List.cons.inj (List.append_cancel_left hlist)).2
  obtain ⟨hop, hparams⟩ := append_separator_inj (hspace _) (hspace _) hbehind
  obtain ⟨hparam1, hparam2⟩ := append_separator_inj (hspace _) (hspace _) hparams
  cases t
  cases u
  cases number_inj hop
  cases number_inj hparam1
  cases number_inj hparam2
  rfl

/-- Exactly triples that are alike have the same text. -/
theorem text_inj {t u : Triple} : t.text = u.text ↔ t.Alike u := by
  constructor
  · intro h
    cases ht : t.decode with
    | ok i =>
      cases hu : u.decode with
      | ok j =>
        rw [text_of_ok ht, text_of_ok hu] at h
        exact .inl ⟨i, ht, Instruction.text_inj h ▸ hu⟩
      | error e =>
        have hdot := Instruction.dot_not_prefix_text i "invalid".toList
        rw [← text_of_ok ht, h, toList_text_of_error hu] at hdot
        exact absurd (List.prefix_append _ _) hdot
    | error e =>
      cases hu : u.decode with
      | ok j =>
        have hdot := Instruction.dot_not_prefix_text j "invalid".toList
        rw [← text_of_ok hu, ← h, toList_text_of_error ht] at hdot
        exact absurd (List.prefix_append _ _) hdot
      | error e' => exact .inr ⟨⟨e, ht⟩, ⟨e', hu⟩, eq_of_toList_text ht hu h⟩
  · intro h
    rcases h with ⟨i, ht, hu⟩ | ⟨-, -, rfl⟩
    · rw [text_of_ok ht, text_of_ok hu]
    · rfl

theorem newline_not_mem_text (t : Triple) : '\n' ∉ t.text.toList := by
  have hnumber (n : Int64) : '\n' ∉ (number n).toList :=
    not_mem_number (by decide) (by decide) n
  cases h : t.decode with
  | ok i =>
    rw [text_of_ok h]
    exact i.newline_not_mem_text
  | error e =>
    rw [toList_text_of_error h]
    simp [hnumber]

end Triple

/-! ## Listings -/

namespace Program

/-- The characters of a line of a listing. -/
def lineChars (index : Nat) (t : Triple) : List Char :=
  (Columns.alignRight 4 (toString index)).toList ++ ':' :: ' ' :: t.text.toList

/-- Whether a line of a listing says behind its index that there is no
instruction. -/
def showsInvalid (line : List Char) : Bool :=
  ".invalid".toList <+: (line.dropWhile (· ≠ ':')).drop 2

theorem newline_not_mem_lineChars (index : Nat) (t : Triple) : '\n' ∉ lineChars index t := by
  have hindex : '\n' ∉ (Columns.alignRight 4 (toString index)).toList :=
    Columns.not_mem_alignRight (by decide) (by decide) 4 index
  have htext := t.newline_not_mem_text
  simp only [lineChars, List.mem_append, List.mem_cons, not_or]
  exact ⟨hindex, by decide, by decide, htext⟩

theorem toList_line (index : Nat) (t : Triple) :
    (line index t).toList = lineChars index t ++ ['\n'] := by
  simp only [line, lineChars, String.toList_append, toString_string, List.append_assoc,
    List.cons_append]
  rfl

/-- A listing has a line for each triple. -/
theorem toList_listing (p : Program) : p.listing.toList = Lines.toText (p.mapIdx lineChars) := by
  rw [listing, String.toList_join, Lines.toText, List.mapIdx_eq_zipIdx_map,
    List.mapIdx_eq_zipIdx_map, List.flatMap_map, List.flatMap_map]
  simp only [toList_line]

theorem ofText_listing (p : Program) : Lines.ofText p.listing.toList = p.mapIdx lineChars := by
  rw [toList_listing]
  refine Lines.ofText_toText fun l hl => ?_
  obtain ⟨i, hi, rfl⟩ := List.mem_mapIdx.1 hl
  exact newline_not_mem_lineChars i p[i]

/-- Listings are compared line by line. -/
theorem listing_inj {p q : Program} :
    p.listing = q.listing ↔ List.Forall₂ Triple.Alike p q := by
  have hlines : p.listing = q.listing ↔ p.mapIdx lineChars = q.mapIdx lineChars := by
    constructor
    · intro h
      rw [← ofText_listing, h, ofText_listing]
    · intro h
      rw [← String.toList_inj, toList_listing, h, toList_listing]
  rw [hlines, List.forall₂_iff_get]
  constructor
  · intro h
    have hlength : p.length = q.length := by simpa using congrArg List.length h
    refine ⟨hlength, fun i hp hq => Triple.text_inj.1 ?_⟩
    have hline : lineChars i p[i] = lineChars i q[i] := by
      have hget := congrArg (·[i]?) h
      simpa [hp, hq] using hget
    exact String.toList_inj.1 (List.cons.inj (List.cons.inj (List.append_cancel_left hline)).2).2
  · rintro ⟨hlength, halike⟩
    refine List.ext_getElem (by simpa using hlength) fun i hp hq => ?_
    rw [List.length_mapIdx] at hp hq
    have htext : p[i].text = q[i].text := Triple.text_inj.2 (halike i hp hq)
    rw [List.getElem_mapIdx, List.getElem_mapIdx, lineChars, lineChars, htext]

theorem showsInvalid_lineChars (index : Nat) (t : Triple) :
    showsInvalid (lineChars index t) = (t.decode matches .error _) := by
  have hcolon : ∀ c ∈ (Columns.alignRight 4 (toString index)).toList, decide (c ≠ ':') := by
    intro c hc
    refine decide_eq_true fun h => ?_
    exact Columns.not_mem_alignRight (by decide) (by decide) 4 index (h ▸ hc)
  rw [showsInvalid, lineChars, List.dropWhile_append_of_pos hcolon]
  show decide (".invalid".toList <+: t.text.toList) = _
  cases h : t.decode with
  | ok i =>
    have hdot := Instruction.dot_not_prefix_text i "invalid".toList
    rw [← Triple.text_of_ok h] at hdot
    exact decide_eq_false hdot
  | error e =>
    rw [Triple.toList_text_of_error h]
    exact decide_eq_true (List.prefix_append _ _)

/-- A listing tells how many triples stand for no instruction. -/
theorem unknownCount_eq_countP (p : Program) :
    p.unknownCount = (Lines.ofText p.listing.toList).countP showsInvalid := by
  rw [ofText_listing, List.mapIdx_eq_zipIdx_map, List.countP_map]
  simp only [Function.comp_def, showsInvalid_lineChars]
  rw [unknownCount]
  conv_lhs => rw [← List.zipIdx_map_fst 0 p]
  rw [List.countP_map]
  rfl

/-! ## Passes -/

/-- A pass sees the instructions that the triples stand for. -/
theorem passFrom_congr {p q : Program} (h : List.Forall₂ Triple.Alike p q) (index : Nat)
    (s : State) : p.passFrom index s = q.passFrom index s := by
  induction h generalizing index s with
  | nil => rfl
  | cons ht _ ih =>
    rw [passFrom_cons, passFrom_cons, Triple.resolve, Triple.resolve, Triple.effect, Triple.effect,
      ht.decode_eq, ih]

end Program

/-- So does a run. -/
theorem Machine.run_congr {p q : Program} (h : List.Forall₂ Triple.Alike p q) (n : Nat) (s : State)
    (passes : Nat) :
    Machine.run n ⟨s, q, passes⟩ =
      ((Machine.run n ⟨s, p, passes⟩).1.withProgram q, (Machine.run n ⟨s, p, passes⟩).2) := by
  induction n generalizing s passes with
  | zero => rfl
  | succ n ih =>
    have hpass : q.pass s = p.pass s := (Program.passFrom_congr h 0 s).symm
    rw [run, run, pass, pass, hpass]
    rcases p.pass s with ⟨s, _ | fault⟩
    · exact ih s (passes + 1)
    · rfl

namespace Program

/-- Two programs have the same listing exactly when they have the same length
and triples at the same place stand for the same instruction, or are the same
and stand for none.  A listing has a line marked as invalid for every triple
without an instruction, so then there are as many of these in both programs, and
runs from the same state end alike, with the same fault, state and number of
passes. -/
theorem listing_eq_iff (p q : Program) :
    (p.listing = q.listing ↔ p.length = q.length ∧
      ∀ k (hp : k < p.length) (hq : k < q.length), p[k].Alike q[k]) ∧
    p.unknownCount = (Lines.ofText p.listing.toList).countP showsInvalid ∧
    (p.listing = q.listing → p.unknownCount = q.unknownCount ∧
      ∀ (s : State) (passes n : Nat),
        (Machine.run n ⟨s, p, passes⟩).2 = (Machine.run n ⟨s, q, passes⟩).2 ∧
        (Machine.run n ⟨s, p, passes⟩).1.state = (Machine.run n ⟨s, q, passes⟩).1.state ∧
        (Machine.run n ⟨s, p, passes⟩).1.passes = (Machine.run n ⟨s, q, passes⟩).1.passes) := by
  refine ⟨?_, p.unknownCount_eq_countP, fun h => ⟨?_, fun s passes n => ?_⟩⟩
  · rw [listing_inj, List.forall₂_iff_get]
    rfl
  · rw [unknownCount_eq_countP, unknownCount_eq_countP, h]
  · rw [Machine.run_congr (listing_inj.1 h) n s passes]
    exact ⟨rfl, rfl, rfl⟩

/-- Parameters count by their low bits, and a flag by being set. -/
theorem listing_eq_iff_low_bits :
    let p : Program := [⟨1, 0xA7D0, 0x1D2⟩, ⟨3, 0x1A7D0, 2⟩, ⟨9, 1, -2⟩]
    let q : Program := [⟨1, 0xA7D0, 0xD2⟩, ⟨3, -0x5830, 1⟩, ⟨9, 1, -2⟩]
    p ≠ q ∧ p.listing = q.listing ∧ p.unknownCount = q.unknownCount ∧
      (Machine.run 2 ⟨default, p, 0⟩).2 = (Machine.run 2 ⟨default, q, 0⟩).2 := by
  intro p q
  obtain ⟨hiff, -, hsame⟩ := listing_eq_iff p q
  have hfill : Triple.Alike ⟨1, 0xA7D0, 0x1D2⟩ ⟨1, 0xA7D0, 0xD2⟩ :=
    .inl ⟨.fill 0xA7D0 0xD2, rfl, rfl⟩
  have hdiff : Triple.Alike ⟨3, 0x1A7D0, 2⟩ ⟨3, -0x5830, 1⟩ := .inl ⟨.diff 0xA7D0 true, rfl, rfl⟩
  have hnone : Triple.Alike ⟨9, 1, -2⟩ ⟨9, 1, -2⟩ := .inr ⟨⟨⟨9⟩, rfl⟩, ⟨⟨9⟩, rfl⟩, rfl⟩
  have hlisting : p.listing = q.listing := by
    refine hiff.2 ⟨rfl, fun k hp _ => ?_⟩
    match k, hp with
    | 0, _ => exact hfill
    | 1, _ => exact hdiff
    | 2, _ => exact hnone
  obtain ⟨hcount, hrun⟩ := hsame hlisting
  exact ⟨by decide, hlisting, hcount, (hrun default 0 2).1⟩

end Program

end SaveRam
