import SaveRam.Proofs.Reading.Words

/-!
# Where reading stops

Reading is decided by the tokens of a text: the values in front of the first token
without one make the program, and reading stops at that token, or else at the end of
the text when the values do not come out even.  `Reading.stop_collect` is the
induction over the tokens.  It needs to know how many values were read before, and
not which ones.

`Token.Shows` says of a piece of text, without scanning it, that it is made of blanks
and of numerals that fit.  Whatever is scanned into values is such a piece, and the
other way round (`Token.map_value_scanFrom_eq_iff`), and so is everything in front of
the token at which reading stops (`Token.exists_shows_token`).
-/

namespace SaveRam

namespace Token

/-! ## Texts of blanks and numbers -/

/-- In front of `after`, a text of blanks and of numerals that fit.  The numerals have
the values `vs`, in order, and each of them is the longest one at its place. -/
inductive Shows (after : List Char) : List Int64 → List Char → Prop where
  | nil : Shows after [] []
  | blank {vs : List Int64} {c : Char} {cs : List Char} (hc : isBlank c)
      (h : Shows after vs cs) : Shows after vs (c :: cs)
  | number {v : Int64} {vs : List Int64} {w cs : List Char}
      (hw : Lexeme w (cs ++ after) (some v)) (h : Shows after vs cs) :
      Shows after (v :: vs) (w ++ cs)

/-- A numeral that fits is one token. -/
theorem scanFrom_number {w after : List Char} {v : Int64} (h : Lexeme w after (some v))
    (start : Nat) :
    scanFrom start (w ++ after) = ⟨start, w, some v⟩ :: scanFrom (start + byteLength w) after := by
  have hw : w ≠ [] ∧ ∀ c ∈ w, ¬ isBlank c := by
    cases h with
    | number hw => exact ⟨hw.ne_nil, fun c hc => hw.not_isBlank hc⟩
  obtain ⟨c, cs, rfl⟩ := List.exists_cons_of_ne_nil hw.1
  have hfirst : first start c (cs ++ after) = ⟨start, c :: cs, some v⟩ :=
    (lexeme_iff_first (t := ⟨start, c :: cs, some v⟩) rfl).1 h
  rw [List.cons_append, scanFrom_token (hw.2 c List.mem_cons_self), hfirst, ← List.cons_append,
    List.drop_left]
  rfl

/-- What a piece of text shows is scanned, whatever comes behind it. -/
theorem scanFrom_of_shows {after : List Char} {vs : List Int64} {cs : List Char}
    (h : Shows after vs cs) (start : Nat) :
    ∃ ts, ts.map value = vs.map some ∧
      scanFrom start (cs ++ after) = ts ++ scanFrom (start + byteLength cs) after := by
  induction h generalizing start with
  | nil => exact ⟨[], rfl, rfl⟩
  | @blank vs c cs hc _ ih =>
    obtain ⟨ts, hts, hscan⟩ := ih (start + c.utf8Size)
    refine ⟨ts, hts, ?_⟩
    rw [List.cons_append, scanFrom_blank hc, hscan, byteLength_cons, Nat.add_assoc]
  | @number v vs w cs hw _ ih =>
    obtain ⟨ts, hts, hscan⟩ := ih (start + byteLength w)
    refine ⟨⟨start, w, some v⟩ :: ts, by rw [List.map_cons, List.map_cons, hts], ?_⟩
    rw [List.append_assoc, scanFrom_number hw, hscan, byteLength_append, Nat.add_assoc,
      List.cons_append]

/-- The first tokens of a text, if they have values, come from a piece at its start that
shows these values.  The other tokens come from the rest, which is cut off behind the
blanks. -/
theorem exists_shows (us : List Token) (start : Nat) (cs : List Char) (ts : List Token)
    (vs : List Int64) : scanFrom start cs = ts ++ us → ts.map value = vs.map some →
    ∃ front after, cs = front ++ after ∧ (∀ c ∈ after.head?, ¬ isBlank c) ∧
      Shows after vs front ∧ scanFrom (start + byteLength front) after = us := by
  induction start, cs using scanFrom.induct generalizing ts vs with
  | case1 start =>
    intro hscan hts
    obtain ⟨rfl, rfl⟩ : ts = [] ∧ us = [] := by simpa [scanFrom] using hscan
    obtain rfl : vs = [] := by simpa using hts
    exact ⟨[], [], rfl, by simp, .nil, by simp [scanFrom]⟩
  | case2 start c cs hc ih =>
    intro hscan hts
    rw [scanFrom_blank hc] at hscan
    obtain ⟨front, after, rfl, hhead, hshows, hrest⟩ := ih _ _ hscan hts
    refine ⟨c :: front, after, rfl, hhead, .blank hc hshows, ?_⟩
    rw [byteLength_cons, ← Nat.add_assoc, hrest]
  | case3 start c cs hc token ih =>
    intro hscan hts
    cases ts with
    | nil =>
      obtain rfl : vs = [] := by simpa using hts
      exact ⟨[], c :: cs, rfl, by simpa using hc, .nil, hscan⟩
    | cons t ts =>
      obtain ⟨v, vs, rfl, hv, htail⟩ := List.map_eq_cons_iff.1 hts.symm
      rw [scanFrom_token hc, List.cons_append] at hscan
      obtain ⟨ht, hbehind⟩ := List.cons.inj hscan
      subst ht
      obtain ⟨front, after, hdrop, hhead, hshows, hrest⟩ := ih _ _ hbehind htail.symm
      -- The first token is followed by the piece that shows the other values.
      have htext := first_append start c cs
      rw [hdrop] at htext
      have hlexeme := (lexeme_iff_first htext.symm).2 (by rw [start_first])
      rw [← hv] at hlexeme
      refine ⟨(first start c cs).text ++ front, after, ?_, hhead, .number hlexeme hshows, ?_⟩
      · rw [List.append_assoc, htext]
      · rw [byteLength_append, ← Nat.add_assoc, ← hrest, stop, start_first]

/-- Exactly the texts of blanks and numerals that fit are scanned into values only. -/
theorem map_value_scanFrom_eq_iff {start : Nat} {cs : List Char} {vs : List Int64} :
    (scanFrom start cs).map value = vs.map some ↔ Shows [] vs cs := by
  constructor
  · intro h
    obtain ⟨front, after, rfl, hhead, hshows, hend⟩ :=
      exists_shows [] start cs _ vs (List.append_nil _).symm h
    cases after with
    | nil => rwa [List.append_nil]
    | cons c after =>
      rw [scanFrom_token (hhead c rfl)] at hend
      cases hend
  · intro h
    obtain ⟨ts, hts, hscan⟩ := scanFrom_of_shows h start
    rw [List.append_nil, scanFrom, List.append_nil] at hscan
    rw [hscan, hts]

/-- The text in front of a token shows the values of the tokens before it. -/
theorem exists_shows_token {start : Nat} {cs : List Char} {t : Token} {ts us : List Token}
    {vs : List Int64} (hscan : scanFrom start cs = ts ++ t :: us)
    (hts : ts.map value = vs.map some) :
    ∃ front back, cs = front ++ t.text ++ back ∧ t.start = start + byteLength front ∧
      Shows (t.text ++ back) vs front := by
  obtain ⟨front, after, rfl, hhead, hshows, hrest⟩ := exists_shows _ start cs ts vs hscan hts
  cases after with
  | nil => simp [scanFrom] at hrest
  | cons c after =>
    rw [scanFrom_token (hhead c rfl)] at hrest
    have ht := (List.cons.inj hrest).1
    have htext := first_append (start + byteLength front) c after
    rw [ht] at htext
    have hstart := start_first (start + byteLength front) c after
    rw [ht] at hstart
    exact ⟨front, _, by rw [List.append_assoc, htext], hstart, by rwa [htext]⟩

end Token

namespace Reading

/-! ## The first token without a value -/

/-- The first token without a value. -/
def offender? (ts : List Token) : Option Token := ts.find? fun t => t.value.isNone

theorem offender?_cons (t : Token) (ts : List Token) :
    offender? (t :: ts) = if t.value = none then some t else offender? ts := by
  unfold offender?
  rw [List.find?_cons]
  cases t.value <;> rfl

/-- Tokens in front of the first one without a value are passed over. -/
theorem offender?_append {ts : List Token} {vs : List Int64} (h : ts.map Token.value = vs.map some)
    (us : List Token) : offender? (ts ++ us) = offender? us := by
  induction ts generalizing vs with
  | nil => rfl
  | cons t ts ih =>
    obtain ⟨v, vs, rfl, hv, htail⟩ := List.map_eq_cons_iff.1 h.symm
    have hne : t.value ≠ none := by simp [← hv]
    rw [List.cons_append, offender?_cons, if_neg hne, ih htail.symm]

@[simp] theorem leading_nil : leading [] = [] := rfl

@[simp] theorem leading_none (vs : List (Option Int64)) : leading (none :: vs) = [] := rfl

/-- The values that are there come first. -/
theorem leading_append (vs : List Int64) (us : List (Option Int64)) :
    leading (vs.map some ++ us) = vs ++ leading us := by
  induction vs with
  | nil => rfl
  | cons v vs ih => simp only [List.map_cons, List.cons_append, leading, ih]

section Split

variable {ts before after : List Token} {t : Token} {vs : List Int64}

theorem leading_of_values (h : ts.map Token.value = vs.map some) :
    leading (ts.map Token.value) = vs := by
  rw [h, ← List.append_nil (vs.map some), leading_append, leading_nil, List.append_nil]

theorem offender?_of_values (h : ts.map Token.value = vs.map some) : offender? ts = none := by
  have happend := offender?_append h []
  rwa [List.append_nil] at happend

/-- The values in front of a token without one are all that is taken. -/
theorem leading_of_split (h : before.map Token.value = vs.map some) (ht : t.value = none) :
    leading ((before ++ t :: after).map Token.value) = vs := by
  rw [List.map_append, h, leading_append, List.map_cons, ht, leading_none, List.append_nil]

theorem offender?_of_split (h : before.map Token.value = vs.map some) (ht : t.value = none) :
    offender? (before ++ t :: after) = some t := by
  rw [offender?_append h, offender?_cons, if_pos ht]

end Split

/-- Either all tokens have values, or there is a first one without. -/
theorem values_cases (ts : List Token) :
    (∃ vs : List Int64, ts.map Token.value = vs.map some) ∨
      ∃ (before : List Token) (t : Token) (after : List Token) (vs : List Int64),
        ts = before ++ t :: after ∧ before.map Token.value = vs.map some ∧ t.value = none := by
  induction ts with
  | nil => exact .inl ⟨[], rfl⟩
  | cons t ts ih =>
    cases hv : t.value with
    | none => exact .inr ⟨[], t, ts, [], rfl, rfl, hv⟩
    | some v =>
      obtain ⟨vs, hvs⟩ | ⟨before, u, after, vs, rfl, hvs, hu⟩ := ih
      · exact .inl ⟨v :: vs, by rw [List.map_cons, List.map_cons, hv, hvs]⟩
      · exact .inr ⟨t :: before, u, after, v :: vs, rfl,
          by rw [List.map_cons, List.map_cons, hv, hvs], hu⟩

/-! ## The stop -/

/-- Why reading stops at the end of a text with `n` values. -/
def leftover (n : Nat) : Option Stop :=
  if n % 3 = 0 then none else some (.incomplete (n / 3) (n % 3))

/-- Why reading stops when `n` values were read before the tokens `ts`. -/
def stopAfter (n : Nat) (ts : List Token) : Option Stop :=
  match offender? ts with
  | some t => some (.invalidToken t.start (String.ofList t.text))
  | none => leftover (n + ts.length)

theorem stopAfter_nil (n : Nat) : stopAfter n [] = leftover n := rfl

theorem stopAfter_of_offender {ts : List Token} {t : Token} (h : offender? ts = some t) (n : Nat) :
    stopAfter n ts = some (.invalidToken t.start (String.ofList t.text)) := by
  rw [stopAfter, h]

theorem stopAfter_of_values {ts : List Token} (h : offender? ts = none) (n : Nat) :
    stopAfter n ts = leftover (n + ts.length) := by
  rw [stopAfter, h]

theorem stopAfter_cons {t : Token} (h : t.value ≠ none) (n : Nat) (ts : List Token) :
    stopAfter n (t :: ts) = stopAfter (n + 1) ts := by
  unfold stopAfter
  rw [offender?_cons, if_neg h, List.length_cons, Nat.add_right_comm, Nat.add_assoc]

theorem leftover_three_mul_add {k r : Nat} (hr : 0 < r) (hlt : r < 3) :
    leftover (3 * k + r) = some (.incomplete k r) := by
  have hmod : (3 * k + r) % 3 = r := by omega
  have hdiv : (3 * k + r) / 3 = k := by omega
  rw [leftover, hmod, hdiv, if_neg (by omega)]

/-- Where reading stops depends on the number of values read before, in complete triples
and pending. -/
theorem stop_collect (acc : Array Triple) (pending : Pending) (ts : List Token) :
    (collect acc pending ts).stop = stopAfter (3 * acc.size + pending.count) ts := by
  induction ts generalizing acc pending with
  | nil =>
    rw [stopAfter_nil]
    cases pending with
    | none => simp [collect, leftover, Pending.count]
    | one opcode => exact (leftover_three_mul_add Nat.one_pos (by decide : 1 < 3)).symm
    | two opcode param1 => exact (leftover_three_mul_add Nat.two_pos (by decide : 2 < 3)).symm
  | cons t ts ih =>
    cases hv : t.value with
    | none =>
      rw [stopAfter_of_offender (by rw [offender?_cons, if_pos hv])]
      cases pending <;> simp only [collect, hv]
    | some v =>
      rw [stopAfter_cons (by simp [hv])]
      cases pending with
      | none | one => simp only [collect, hv, ih, Pending.count]
      | two => simp only [collect, hv, ih, Pending.count, Array.size_push, Nat.mul_succ]

/-- A text is read as its tokens say. -/
theorem ofText_eq (text : String) :
    ofText text =
      ⟨.ofValues (leading (Token.values text.toList)), stopAfter 0 (Token.scan text)⟩ := by
  have hprogram := program_ofText text
  have hstop : (ofText text).stop = _ := stop_collect #[] .none (Token.scan text)
  rw [← hprogram]
  exact congrArg (Reading.mk _) hstop

/-- A text that has values only is read to its end. -/
theorem ofText_of_values {text : String} {vs : List Int64}
    (h : (Token.scan text).map Token.value = vs.map some) :
    ofText text = ⟨.ofValues vs, leftover vs.length⟩ := by
  have hleading : leading (Token.values text.toList) = vs := leading_of_values h
  have hlength : (Token.scan text).length = vs.length := by simpa using congrArg List.length h
  rw [ofText_eq, hleading, stopAfter_of_values (offender?_of_values h), hlength, Nat.zero_add]

/-- A text is read up to its first token without a value. -/
theorem ofText_of_split {text : String} {before after : List Token} {t : Token}
    {vs : List Int64} (hscan : Token.scan text = before ++ t :: after)
    (hvs : before.map Token.value = vs.map some) (ht : t.value = none) :
    ofText text = ⟨.ofValues vs, some (.invalidToken t.start (String.ofList t.text))⟩ := by
  have hleading : leading (Token.values text.toList) = vs := by
    show leading ((Token.scan text).map Token.value) = vs
    rw [hscan, leading_of_split hvs ht]
  have hoffender : offender? (Token.scan text) = some t := by
    rw [hscan, offender?_of_split hvs ht]
  rw [ofText_eq, hleading, stopAfter_of_offender hoffender]

/-- Reading stops at the first token without a value, or else at the end. -/
theorem stop_ofText (text : String) :
    (ofText text).stop = match offender? (Token.scan text) with
      | some t => some (.invalidToken t.start (String.ofList t.text))
      | none => leftover (leading ((Token.scan text).map Token.value)).length := by
  obtain ⟨vs, hvs⟩ | ⟨before, t, after, vs, hts, hvs, ht⟩ := values_cases (Token.scan text)
  · rw [ofText_of_values hvs, offender?_of_values hvs, leading_of_values hvs]
  · rw [ofText_of_split hts hvs ht, hts, offender?_of_split hvs ht]

theorem leftover_ne_invalidToken (n offset : Nat) (word : String) :
    leftover n ≠ some (.invalidToken offset word) := by
  unfold leftover
  split <;> simp

/-- A token at which reading stops is the first one without a value. -/
theorem exists_split_of_invalidToken {text word : String} {offset : Nat}
    (h : (ofText text).stop = some (.invalidToken offset word)) :
    ∃ (before : List Token) (t : Token) (after : List Token) (vs : List Int64),
      Token.scan text = before ++ t :: after ∧ before.map Token.value = vs.map some ∧
        t.value = none ∧ t.start = offset ∧ String.ofList t.text = word := by
  obtain ⟨vs, hvs⟩ | ⟨before, t, after, vs, hts, hvs, ht⟩ := values_cases (Token.scan text)
  · rw [ofText_of_values hvs] at h
    exact absurd h (leftover_ne_invalidToken _ _ _)
  · rw [ofText_of_split hts hvs ht] at h
    cases h
    exact ⟨before, t, after, vs, hts, hvs, ht, rfl, rfl⟩

/-- Reading stops at a token exactly if some token has no value. -/
theorem exists_invalidToken_iff {text : String} :
    (∃ offset word, (ofText text).stop = some (.invalidToken offset word)) ↔
      ∃ t ∈ Token.scan text, t.value = none := by
  constructor
  · rintro ⟨offset, word, h⟩
    obtain ⟨before, t, after, vs, hts, -, ht, -⟩ := exists_split_of_invalidToken h
    exact ⟨t, by simp [hts], ht⟩
  · rintro ⟨t, hmem, ht⟩
    obtain ⟨vs, hvs⟩ | ⟨before, u, after, vs, hts, hvs, hu⟩ := values_cases (Token.scan text)
    · have hvalue : t.value ∈ vs.map some := hvs ▸ List.mem_map_of_mem hmem
      simp [ht] at hvalue
    · rw [ofText_of_split hts hvs hu]
      exact ⟨_, _, rfl⟩

/-- In front of the place where reading stops there are blanks and the numerals that were
read. -/
theorem exists_front_of_invalidToken {text word : String} {offset : Nat}
    (h : (ofText text).stop = some (.invalidToken offset word)) :
    ∃ front back, text = front ++ word ++ back ∧ front.utf8ByteSize = offset ∧
      Token.Shows (word ++ back).toList (leading ((Token.scan text).map Token.value))
        front.toList := by
  obtain ⟨before, t, after, vs, hts, hvs, ht, rfl, rfl⟩ := exists_split_of_invalidToken h
  rw [hts, leading_of_split hvs ht]
  obtain ⟨front, back, htext, hstart, hshows⟩ := Token.exists_shows_token hts hvs
  refine ⟨String.ofList front, String.ofList back, ?_, ?_, ?_⟩
  · rw [← String.ofList_append, ← String.ofList_append, ← htext, String.ofList_toList]
  · rw [Token.utf8ByteSize_ofList, hstart, Nat.zero_add]
  · simpa using hshows

/-! ## Texts that are read to the end -/

theorem isComplete_iff {r : Reading} : r.isComplete ↔ r.stop = none := Option.isNone_iff_eq_none

/-- A program is given back unless reading stopped. -/
theorem exists_whole_iff {r : Reading} : (∃ p, r.whole = .ok p) ↔ r.stop = none := by
  unfold whole
  cases r.stop <;> simp

theorem leftover_eq_none_iff {n : Nat} : leftover n = none ↔ 3 ∣ n := by
  rw [leftover, Nat.dvd_iff_mod_eq_zero]
  split <;> simp_all

/-- Reading does not stop exactly at texts of blanks and of numerals that fit, with a
multiple of three numerals. -/
theorem stop_ofText_eq_none_iff {text : String} :
    (ofText text).stop = none ↔ ∃ vs, Token.Shows [] vs text.toList ∧ 3 ∣ vs.length := by
  constructor
  · intro hstop
    obtain ⟨vs, hvs⟩ | ⟨before, t, after, vs, hts, hvs, ht⟩ := values_cases (Token.scan text)
    · rw [ofText_of_values hvs] at hstop
      exact ⟨vs, Token.map_value_scanFrom_eq_iff.1 hvs, leftover_eq_none_iff.1 hstop⟩
    · rw [ofText_of_split hts hvs ht] at hstop
      cases hstop
  · rintro ⟨vs, hshows, hthree⟩
    rw [ofText_of_values (Token.map_value_scanFrom_eq_iff.2 hshows)]
    exact leftover_eq_none_iff.2 hthree

/-- Reading is decided by the tokens of a text.  The values in front of the first token
without one are taken three at a time.  Reading stops at that token, whether or not
values are pending, with its text and its place behind blanks and numerals that fit, or
else at the end, if values are left over there.  So it does not stop at all exactly in
a text of blanks and numerals that fit, a multiple of three of them, and exactly then
the program is given back as a whole. -/
theorem ofText_of_tokens (text : String) :
    let ts := Token.scan text
    let vs := leading (ts.map Token.value)
    ((ofText text).program = .ofValues vs ∧ (ofText text).program.length = vs.length / 3) ∧
    ((∃ offset word, (ofText text).stop = some (.invalidToken offset word)) ↔
      ∃ t ∈ ts, t.value = none) ∧
    ((ofText text).stop = match offender? ts with
      | some t => some (.invalidToken t.start (String.ofList t.text))
      | none => if vs.length % 3 = 0 then none
        else some (.incomplete (vs.length / 3) (vs.length % 3))) ∧
    (∀ offset word, (ofText text).stop = some (.invalidToken offset word) →
      ∃ front back, text = front ++ word ++ back ∧ front.utf8ByteSize = offset ∧
        Token.Shows (word ++ back).toList vs front.toList) ∧
    ((ofText text).isComplete ↔ ∃ p, (ofText text).whole = .ok p) ∧
    ((ofText text).isComplete ↔ ∃ us, Token.Shows [] us text.toList ∧ 3 ∣ us.length) := by
  intro ts vs
  rw [isComplete_iff, exists_whole_iff]
  refine ⟨⟨program_ofText text, ?_⟩, exists_invalidToken_iff, stop_ofText text,
    fun offset word => exists_front_of_invalidToken, Iff.rfl, stop_ofText_eq_none_iff⟩
  rw [program_ofText]
  exact Program.length_ofValues vs

/-- A word stands behind one value of the second triple, and no value is read behind it. -/
theorem ofText_of_tokens_pending :
    let text := "1 0xa000 5\n6 zz 7 0 0"
    (ofText text).stop = some (.invalidToken 13 "z") ∧
      ∃ front back, text = front ++ "z" ++ back ∧ front.utf8ByteSize = 13 ∧
        Token.Shows ("z" ++ back).toList [1, 0xa000, 5, 6] front.toList := by
  intro text
  have hvalues : leading ((Token.scan text).map Token.value) = [1, 0xa000, 5, 6] := by
    decide +kernel
  have hoffender : offender? (Token.scan text) = some ⟨13, ['z'], none⟩ := by
    decide +kernel
  obtain ⟨-, -, hstop, hfront, -⟩ := ofText_of_tokens text
  rw [hoffender] at hstop
  have hplace := hfront _ _ hstop
  rw [hvalues] at hplace
  exact ⟨hstop, hplace⟩

end Reading

end SaveRam
