import SaveRam.Proofs.Token.Segmentation

/-!
# Scanning word by word

The words of a text are its longest pieces without blanks (`Token.words`).  A
token never goes over a blank, so a text can be cut at a blank before it is
scanned (`Token.scanFrom_append`), and the place where a text starts only moves
its tokens (`Token.scanFrom_add`).  Together, the tokens of a text have the
values that the tokens of its words have when every word is scanned alone:
`Token.values_eq_flatMap_words`.

A word may be cut into several tokens.  `Token.whole?` is the value of a word
that is a numeral from its first character to its last.
-/

namespace SaveRam

namespace Token

open Numeral (Writes)

/-! ## Steps -/

theorem scanFrom_blank {c : Char} (hc : isBlank c) (start : Nat) (cs : List Char) :
    scanFrom start (c :: cs) = scanFrom (start + c.utf8Size) cs := by
  rw [scanFrom, if_pos hc]

theorem scanFrom_token {c : Char} (hc : ¬ isBlank c) (start : Nat) (cs : List Char) :
    scanFrom start (c :: cs) =
      first start c cs ::
        scanFrom (first start c cs).stop ((c :: cs).drop (first start c cs).text.length) := by
  rw [scanFrom, if_neg hc]

theorem scanFrom_blanks {gap : List Char} (hgap : ∀ c ∈ gap, isBlank c) (start : Nat)
    (rest : List Char) :
    scanFrom start (gap ++ rest) = scanFrom (start + byteLength gap) rest := by
  induction gap generalizing start with
  | nil => rfl
  | cons c gap ih =>
    obtain ⟨hc, hgap⟩ := List.forall_mem_cons.1 hgap
    rw [List.cons_append, scanFrom_blank hc, ih hgap, byteLength_cons, Nat.add_assoc]

/-- In front of a blank, and at the end of a text, a numeral is one token. -/
theorem scanFrom_numeral {n : Int} {w rest : List Char} (hw : Writes n w)
    (hrest : ∀ c ∈ rest.head?, isBlank c) (start : Nat) :
    scanFrom start (w ++ rest) =
      ⟨start, w, Numeral.parse? w⟩ :: scanFrom (start + byteLength w) rest := by
  have htaken := numeral_append hw hrest
  obtain ⟨c, v, rfl⟩ := List.exists_cons_of_ne_nil hw.ne_nil
  have hc : ¬ isBlank c := hw.not_isBlank List.mem_cons_self
  rw [List.cons_append] at htaken ⊢
  rw [scanFrom_token hc, first_of_numeral htaken (List.cons_ne_nil c v)]
  dsimp only
  rw [← List.cons_append, List.drop_left]
  rfl

/-! ## Texts in two parts -/

/-- What follows from a blank on does not matter for the first token. -/
theorem first_append_of_blank {rest : List Char} (hrest : ∀ d ∈ rest.head?, isBlank d)
    (start : Nat) (c : Char) (cs : List Char) : first start c (cs ++ rest) = first start c cs := by
  have hnumeral : numeral (c :: (cs ++ rest)) = numeral (c :: cs) :=
    @numeral_append_of_blank (c :: cs) rest hrest
  unfold first
  rw [hnumeral]

/-- In front of a blank, and at the end of a text, scanning starts afresh. -/
theorem scanFrom_append {rest : List Char} (hrest : ∀ d ∈ rest.head?, isBlank d)
    (start : Nat) (cs : List Char) :
    scanFrom start (cs ++ rest) =
      scanFrom start cs ++ scanFrom (start + byteLength cs) rest := by
  induction start, cs using scanFrom.induct with
  | case1 start => simp [scanFrom]
  | case2 start c cs hc ih =>
    rw [List.cons_append, scanFrom_blank hc, ih, scanFrom_blank hc, byteLength_cons,
      Nat.add_assoc]
  | case3 start c cs hc token ih =>
    have htext : token.text ++ (c :: cs).drop token.text.length = c :: cs :=
      first_append start c cs
    have hlength : token.text.length ≤ (c :: cs).length := by
      rw [← htext, List.length_append]
      omega
    have hstop : token.stop + byteLength ((c :: cs).drop token.text.length) =
        start + byteLength (c :: cs) := by
      rw [stop, start_first, Nat.add_assoc, ← byteLength_append, htext]
    rw [List.cons_append, scanFrom_token hc, first_append_of_blank hrest, ← List.cons_append,
      List.drop_append_of_le_length hlength, ih, hstop, scanFrom_token hc, List.cons_append]

/-- The token `n` bytes further behind. -/
def shift (n : Nat) (t : Token) : Token := { t with start := t.start + n }

@[simp] theorem shift_text (n : Nat) (t : Token) : (t.shift n).text = t.text := rfl

@[simp] theorem shift_value (n : Nat) (t : Token) : (t.shift n).value = t.value := rfl

@[simp] theorem shift_stop (n : Nat) (t : Token) : (t.shift n).stop = t.stop + n :=
  Nat.add_right_comm t.start n (byteLength t.text)

theorem first_add (start n : Nat) (c : Char) (cs : List Char) :
    first (start + n) c cs = (first start c cs).shift n := by
  unfold first
  split <;> rfl

/-- Where a text starts matters for the places of its tokens only. -/
theorem scanFrom_add (start n : Nat) (cs : List Char) :
    scanFrom (start + n) cs = (scanFrom start cs).map (shift n) := by
  induction start, cs using scanFrom.induct with
  | case1 start => simp [scanFrom]
  | case2 start c cs hc ih =>
    rw [scanFrom_blank hc, Nat.add_right_comm, ih, scanFrom_blank hc]
  | case3 start c cs hc token ih =>
    rw [scanFrom_token hc, first_add, shift_stop, shift_text, ih, scanFrom_token hc,
      List.map_cons]

/-- The values of the tokens of a text, in order. -/
def values (cs : List Char) : List (Option Int64) := (scanFrom 0 cs).map value

theorem map_value_scanFrom (start : Nat) (cs : List Char) :
    (scanFrom start cs).map value = values cs := by
  have hadd := scanFrom_add 0 start cs
  rw [Nat.zero_add] at hadd
  rw [hadd, List.map_map]
  rfl

theorem values_append_blank {c : Char} (hc : isBlank c) (cs ds : List Char) :
    values (cs ++ c :: ds) = values cs ++ values ds := by
  have hrest : ∀ d ∈ (c :: ds).head?, isBlank d := by simpa using hc
  rw [values, scanFrom_append hrest, scanFrom_blank hc, List.map_append, map_value_scanFrom,
    map_value_scanFrom]

/-! ## Words -/

/-- The words of a text: its longest pieces that are not empty and hold no blank. -/
def words (cs : List Char) : List (List Char) := (cs.splitOnP isBlank).filter (· ≠ [])

/-- A text can be cut at a blank before it is divided into words. -/
theorem words_append_blank {c : Char} (hc : isBlank c) (cs ds : List Char) :
    words (cs ++ c :: ds) = words cs ++ words ds := by
  unfold words
  rw [List.splitOnP_append_cons cs ds hc, List.filter_append]

/-- A text without blanks is one word. -/
theorem words_of_nonblank {w : List Char} (hne : w ≠ []) (h : ∀ c ∈ w, ¬ isBlank c) :
    words w = [w] := by
  unfold words
  rw [List.splitOnP_eq_singleton fun c hc => Bool.eq_false_iff.2 (h c hc)]
  exact List.filter_cons_of_pos (decide_eq_true hne)

theorem values_of_nonblank {w : List Char} (h : ∀ c ∈ w, ¬ isBlank c) :
    values w = (words w).flatMap values := by
  by_cases hne : w = []
  · subst hne
    simp [values, scanFrom, words]
  · rw [words_of_nonblank hne h, List.flatMap_singleton]

/-- The induction goes through the text `cs` behind the part `w` of a word that is
known already. -/
theorem values_append {w : List Char} (h : ∀ c ∈ w, ¬ isBlank c) (cs : List Char) :
    values (w ++ cs) = (words (w ++ cs)).flatMap values := by
  induction cs generalizing w with
  | nil => rw [List.append_nil, values_of_nonblank h]
  | cons c cs ih =>
    by_cases hc : isBlank c
    · -- The word ends here, and nothing is known of the next one.
      have hnext : values cs = (words cs).flatMap values := ih (List.forall_mem_nil _)
      rw [values_append_blank hc, words_append_blank hc, List.flatMap_append, hnext,
        values_of_nonblank h]
    · have hw : ∀ d ∈ w ++ [c], ¬ isBlank d :=
        List.forall_mem_append.2 ⟨h, List.forall_mem_singleton.2 hc⟩
      have hword := ih hw
      rwa [List.append_assoc] at hword

/-- The tokens of a text have the values that the tokens of its words have. -/
theorem values_eq_flatMap_words (cs : List Char) : values cs = (words cs).flatMap values :=
  values_append (List.forall_mem_nil _) cs

/-! ## Whole words -/

/-- The value of a word that is a numeral as a whole, if it fits. -/
def whole? (w : List Char) : Option Int64 :=
  if numeral w = w then Numeral.parse? w else none

/-- The whole words with a value are the numerals whose magnitude has 63 bits at most. -/
theorem whole?_eq_some_iff {w : List Char} {v : Int64} :
    whole? w = some v ↔ ∃ n, Writes n w ∧ n.natAbs < 2 ^ 63 ∧ v = Int64.ofInt n := by
  unfold whole?
  rw [Option.ite_none_right_eq_some]
  constructor
  · rintro ⟨hall, hv⟩
    have hne : numeral w ≠ [] := by
      intro hnil
      rw [← hall, hnil] at hv
      cases hv
    obtain ⟨n, hn⟩ := exists_writes_numeral hne
    rw [hall] at hn
    rw [Numeral.parse?_of_writes hn, Option.ite_none_right_eq_some] at hv
    exact ⟨n, hn, hv.1, (Option.some.inj hv.2).symm⟩
  · rintro ⟨n, hn, hfits, rfl⟩
    rw [Numeral.parse?_of_writes hn, if_pos hfits]
    exact ⟨numeral_of_writes hn, rfl⟩

/-- A whole word is one token. -/
theorem values_of_whole {w : List Char} {v : Int64} (h : whole? w = some v) :
    values w = [some v] := by
  obtain ⟨n, hn, hfits, rfl⟩ := whole?_eq_some_iff.1 h
  have hscan : scanFrom 0 (w ++ []) = _ := scanFrom_numeral hn (by simp) 0
  rw [List.append_nil, Numeral.parse?_of_writes hn, if_pos hfits, scanFrom] at hscan
  rw [values, hscan, List.map_singleton]

end Token

end SaveRam
