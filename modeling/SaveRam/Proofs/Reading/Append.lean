import SaveRam.Proofs.Reading.Stop

/-!
# Reading a text in two parts

Blanks divide a text into parts that are scanned one by one (`Token.scan_append`).  So
what was read before reading stopped at a token does not depend on what follows behind
a blank, and a text that is read to its end may be followed by another one: the programs
are joined, and a stop in the second part is reported as it would be for that part
alone, with bytes and triples counted on (`Stop.behind`).
-/

namespace SaveRam

namespace Token

theorem utf8ByteSize_eq (s : String) : s.utf8ByteSize = byteLength s.toList := by
  rw [← utf8ByteSize_ofList, String.ofList_toList]

/-- Text behind blanks is scanned as if it stood alone, only at later bytes. -/
theorem scan_append {s w t : String} (hne : w ≠ "") (hw : ∀ c ∈ w.toList, isBlank c) :
    scan (s ++ w ++ t) = scan s ++ (scan t).map (shift (s ++ w).utf8ByteSize) := by
  have hhead : ∀ d ∈ (w.toList ++ t.toList).head?, isBlank d := by
    obtain ⟨c, cs, hcs⟩ := List.exists_cons_of_ne_nil (mt String.toList_eq_nil_iff.1 hne)
    rw [hcs] at hw ⊢
    simpa using hw c List.mem_cons_self
  have hsize : (s ++ w).utf8ByteSize = byteLength s.toList + byteLength w.toList := by
    rw [utf8ByteSize_eq, String.toList_append, byteLength_append]
  unfold scan
  rw [String.toList_append, String.toList_append, List.append_assoc, scanFrom_append hhead,
    scanFrom_blanks hw, hsize, ← scanFrom_add, Nat.add_assoc]

end Token

namespace Program

/-- Values that come out even make their triples by themselves. -/
theorem ofValues_append {vs : List Int64} (h : 3 ∣ vs.length) (us : List Int64) :
    ofValues (vs ++ us) = ofValues vs ++ ofValues us := by
  induction vs using ofValues.induct with
  | case1 opcode param1 param2 vs ih =>
    have hrest : 3 ∣ vs.length := (Nat.dvd_add_left (Nat.dvd_refl 3)).1 h
    simp only [List.cons_append, ofValues, ih hrest]
  | case2 vs hshort =>
    have hempty : ofValues vs = [] := ofValues.eq_2 vs hshort
    have hlength := length_ofValues vs
    rw [hempty, List.length_nil] at hlength
    have hnil : vs = [] := List.eq_nil_of_length_eq_zero (by omega)
    rw [hnil]
    rfl

end Program

/-- The stop in a text that comes behind so many bytes and triples. -/
def Stop.behind (bytes triples : Nat) : Stop → Stop
  | .invalidToken offset text => .invalidToken (offset + bytes) text
  | .incomplete index found => .incomplete (index + triples) found

namespace Reading

/-- Values that come out even do not matter to what is left over. -/
theorem leftover_add {m : Nat} (h : 3 ∣ m) (bytes n : Nat) :
    leftover (m + n) = (leftover n).map (Stop.behind bytes (m / 3)) := by
  obtain ⟨k, rfl⟩ := h
  have hmod : (3 * k + n) % 3 = n % 3 := by omega
  have hdiv : (3 * k + n) / 3 = n / 3 + 3 * k / 3 := by omega
  unfold leftover
  rw [hmod, hdiv]
  split <;> rfl

section Parts

variable {s w t : String}

/-- A token without a value is still the first one when text is added behind a blank. -/
theorem ofText_append_of_invalidToken (hne : w ≠ "") (hw : ∀ c ∈ w.toList, Token.isBlank c)
    {offset : Nat} {word : String} (h : (ofText s).stop = some (.invalidToken offset word)) :
    ofText (s ++ w ++ t) = ofText s := by
  obtain ⟨before, bad, after, vs, hts, hvs, hbad, -⟩ := exists_split_of_invalidToken h
  have hscan := Token.scan_append (s := s) (t := t) hne hw
  rw [hts, List.append_assoc, List.cons_append] at hscan
  rw [ofText_of_split hts hvs hbad, ofText_of_split hscan hvs hbad]

/-- The programs of two parts are joined if the first part is read to its end. -/
theorem ofText_append_of_complete (hne : w ≠ "") (hw : ∀ c ∈ w.toList, Token.isBlank c)
    (h : (ofText s).stop = none) :
    ofText (s ++ w ++ t) = ⟨(ofText s).program ++ (ofText t).program,
      (ofText t).stop.map (Stop.behind (s ++ w).utf8ByteSize (ofText s).program.length)⟩ := by
  obtain ⟨vs, hshows, hthree⟩ := stop_ofText_eq_none_iff.1 h
  have hvs : (Token.scan s).map Token.value = vs.map some :=
    Token.map_value_scanFrom_eq_iff.2 hshows
  have hs : ofText s = ⟨.ofValues vs, leftover vs.length⟩ := ofText_of_values hvs
  have hlength : (Program.ofValues vs).length = vs.length / 3 := Program.length_ofValues vs
  have hscan := Token.scan_append (s := s) (t := t) hne hw
  have hshift (ts : List Token) (n : Nat) :
      (ts.map (Token.shift n)).map Token.value = ts.map Token.value := by
    rw [List.map_map]
    rfl
  obtain ⟨us, hus⟩ | ⟨before, bad, after, us, hts, hus, hbad⟩ := values_cases (Token.scan t)
  · -- Both parts have values only.
    have hall : (Token.scan (s ++ w ++ t)).map Token.value = (vs ++ us).map some := by
      rw [hscan, List.map_append, hshift, hus, hvs, List.map_append]
    rw [ofText_of_values hall, hs, ofText_of_values hus, hlength, Program.ofValues_append hthree,
      List.length_append, leftover_add hthree]
  · -- The first token without a value is in the second part.
    rw [hts, List.map_append, List.map_cons, ← List.append_assoc] at hscan
    have hbefore : (Token.scan s ++ before.map (Token.shift (s ++ w).utf8ByteSize)).map
        Token.value = (vs ++ us).map some := by
      rw [List.map_append, hshift, hus, hvs, List.map_append]
    rw [ofText_of_split hscan hbefore hbad, hs, ofText_of_split hts hus hbad,
      Program.ofValues_append hthree]
    rfl

/-- Blanks and more text behind a text `s` add tokens to those of `s`.  If reading `s`
stops at a token, nothing changes.  If `s` is read to its end, the program of `s` is
followed by that of `t`, and reading stops where it does in `t`. -/
theorem ofText_behind_blanks (hne : w ≠ "") (hw : ∀ c ∈ w.toList, Token.isBlank c) :
    Token.scan (s ++ w ++ t) =
      Token.scan s ++ (Token.scan t).map (Token.shift (s ++ w).utf8ByteSize) ∧
    (∀ offset word, (ofText s).stop = some (.invalidToken offset word) →
      ofText (s ++ w ++ t) = ofText s) ∧
    ((ofText s).isComplete →
      ofText (s ++ w ++ t) = ⟨(ofText s).program ++ (ofText t).program,
        (ofText t).stop.map (Stop.behind (s ++ w).utf8ByteSize (ofText s).program.length)⟩) :=
  ⟨Token.scan_append hne hw, fun _ _ => ofText_append_of_invalidToken hne hw,
    fun h => ofText_append_of_complete hne hw (isComplete_iff.1 h)⟩

end Parts

/-- What follows a stray character of three bytes is not read.  Behind a whole triple,
such a character and a triple that is too short are found where they are. -/
theorem ofText_behind_blanks_stray :
    ofText ("1 日" ++ "\x0b" ++ "0xa000 2") = ofText "1 日" ∧
      ofText ("1 0xa000 0xd2" ++ "\r\n" ++ "7 0xa001 1 日 8") =
        ⟨[⟨1, 0xa000, 0xd2⟩, ⟨7, 0xa001, 1⟩], some (.invalidToken 26 "日")⟩ ∧
      ofText ("1 0xa000 0xd2" ++ " " ++ "7 0xa001") =
        ⟨[⟨1, 0xa000, 0xd2⟩], some (.incomplete 1 2)⟩ := by
  have hstray : (ofText "1 日").stop = some (.invalidToken 2 "日") := by decide +kernel
  have hwhole : ofText "1 0xa000 0xd2" = ⟨[⟨1, 0xa000, 0xd2⟩], none⟩ := by decide +kernel
  have hsecond : ofText "7 0xa001 1 日 8" = ⟨[⟨7, 0xa001, 1⟩], some (.invalidToken 11 "日")⟩ := by
    decide +kernel
  have hshort : ofText "7 0xa001" = ⟨[], some (.incomplete 0 2)⟩ := by decide +kernel
  have hcomplete : (ofText "1 0xa000 0xd2").isComplete := by rw [hwhole]; rfl
  refine ⟨?_, ?_, ?_⟩
  · obtain ⟨-, hkept, -⟩ := ofText_behind_blanks (s := "1 日") (w := "\x0b") (t := "0xa000 2")
      (by decide) (List.all_eq_true.1 rfl)
    exact hkept _ _ hstray
  · obtain ⟨-, -, hjoined⟩ := ofText_behind_blanks (s := "1 0xa000 0xd2") (w := "\r\n")
      (t := "7 0xa001 1 日 8") (by decide) (List.all_eq_true.1 rfl)
    rw [hjoined hcomplete, hwhole, hsecond]
    rfl
  · obtain ⟨-, -, hjoined⟩ :=
      ofText_behind_blanks (s := "1 0xa000 0xd2") (w := " ") (t := "7 0xa001")
      (by decide) (List.all_eq_true.1 rfl)
    rw [hjoined hcomplete, hwhole, hshort]
    rfl

end Reading

end SaveRam
