import SaveRam.Behavior.Reading
import SaveRam.Proofs.Token.Words

/-!
# Written programs

`Reading.Written` are the texts that show a list of values: each value in any
notation, blanks between neighbours, and blanks around the whole as one likes.
Such a text is scanned into one token for each value (`Reading.scan_written`),
and tokens with values are grouped into triples (`Reading.collect_values`).
So a program is read back from every text that shows its numbers.
-/

namespace SaveRam

/-- The numbers of a triple in the order in which they are written. -/
def Triple.values (t : Triple) : List Int64 := [t.opcode, t.param1, t.param2]

/-- The numbers of a program in the order in which they are written. -/
def Program.values (p : Program) : List Int64 := p.flatMap Triple.values

namespace Reading

/-! ## Texts that show values -/

/-- The texts that show a list of values.  What follows a value is a blank or
the end of the text. -/
inductive Written : List Int64 → List Char → Prop where
  | nil {gap : List Char} (hgap : ∀ c ∈ gap, Token.isBlank c) : Written [] gap
  | cons {v : Int64} {vs : List Int64} {gap w rest : List Char}
      (hgap : ∀ c ∈ gap, Token.isBlank c) (hw : Numeral.Writes v.toInt w)
      (hrest : ∀ c ∈ rest.head?, Token.isBlank c) (hvs : Written vs rest) :
      Written (v :: vs) (gap ++ w ++ rest)

/-- A text that shows values is scanned into these values. -/
theorem scan_written {vs : List Int64} {cs : List Char} (h : Written vs cs)
    (hvs : ∀ v ∈ vs, v ≠ Int64.minValue) (start : Nat) :
    (Token.scanFrom start cs).map Token.value = vs.map some := by
  induction h generalizing start with
  | @nil gap hgap =>
    rw [← List.append_nil gap, Token.scanFrom_blanks hgap, Token.scanFrom]
    rfl
  | cons hgap hw hrest _ ih =>
    obtain ⟨hv, hvs⟩ := List.forall_mem_cons.1 hvs
    rw [List.append_assoc, Token.scanFrom_blanks hgap, Token.scanFrom_numeral hw hrest,
      List.map_cons, List.map_cons, ih hvs, Numeral.parse?_of_writes_toInt hw hv]

/-! ## Grouping -/

/-- Tokens with the values of a program give the program. -/
theorem collect_values {p : Program} {ts : List Token} (acc : Array Triple)
    (h : ts.map Token.value = p.values.map some) :
    collect acc .none ts = ⟨acc.toList ++ p, none⟩ := by
  induction p generalizing acc ts with
  | nil =>
    obtain rfl := List.map_eq_nil_iff.1 h
    rw [collect, List.append_nil]
  | cons t p ih =>
    obtain ⟨a, ts, rfl, ha, h⟩ := List.map_eq_cons_iff.1 h
    obtain ⟨b, ts, rfl, hb, h⟩ := List.map_eq_cons_iff.1 h
    obtain ⟨c, ts, rfl, hc, h⟩ := List.map_eq_cons_iff.1 h
    simp only [collect, ha, hb, hc]
    rw [ih _ h, Array.toList_push, List.append_assoc]
    rfl

/-- A program without the least number is read back from every text that shows
its numbers. -/
theorem ofText_of_written {p : Program} {text : String}
    (hvalues : ∀ v ∈ p.values, v ≠ Int64.minValue) (h : Written p.values text.toList) :
    Reading.ofText text = ⟨p, none⟩ :=
  collect_values #[] (scan_written h hvalues 0)

/-- A triple in three notations, with the greatest number in decimal. -/
theorem ofText_of_written_notations :
    Reading.ofText "\n-0X00fF\t +010\x0b9223372036854775807" =
      ⟨[⟨-255, 8, Int64.maxValue⟩], none⟩ := by
  have hdigits : ∀ {base n : Nat} {cs : List Char}, base ≤ 16 →
      Numeral.digits? base cs = some n → Numeral.Digits base n cs :=
    fun hbase h => ((Numeral.digits?_eq_some_iff hbase).1 h).2
  have hhex : Numeral.Writes (-255) "-0X00fF".toList :=
    .minus (.hex (.inr rfl) (by decide) (hdigits (by decide) (by decide)))
  have hoctal : Numeral.Writes 8 "+010".toList := .plus (.octal (hdigits (by decide) (by decide)))
  have hdecimal : Numeral.Writes 9223372036854775807 "9223372036854775807".toList :=
    .bare (.decimal (by decide) (hdigits (by decide) (by decide)))
  have hend : Written [] [] := .nil (List.forall_mem_nil _)
  have hthird : Written [Int64.maxValue] ("\x0b".toList ++ "9223372036854775807".toList ++ []) :=
    .cons (List.all_eq_true.1 rfl) hdecimal ((Option.all_eq_true _ _).1 rfl) hend
  have hsecond : Written [8, Int64.maxValue] ("\t ".toList ++ "+010".toList ++ _) :=
    .cons (List.all_eq_true.1 rfl) hoctal ((Option.all_eq_true _ _).1 rfl) hthird
  have hfirst : Written [-255, 8, Int64.maxValue] ("\n".toList ++ "-0X00fF".toList ++ _) :=
    .cons (List.all_eq_true.1 rfl) hhex ((Option.all_eq_true _ _).1 rfl) hsecond
  have hvalues : ∀ v ∈ [-255, 8, Int64.maxValue], v ≠ Int64.minValue := by
    simp only [List.forall_mem_cons, List.not_mem_nil, false_implies, implies_true, and_true]
    decide
  exact ofText_of_written hvalues hfirst

end Reading

end SaveRam
