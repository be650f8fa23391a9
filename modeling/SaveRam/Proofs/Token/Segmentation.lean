import SaveRam.Proofs.Token.Longest

/-!
# Cutting a text into tokens

`Token.Segmentation` says what it means for tokens to cut up a text, without
saying how they are found.  The spans of the tokens lie one behind the other and
begin and end between characters; no blank is inside a span and nothing but
blanks is outside of all of them; and each span is what `Token.Lexeme` allows at
its place: the longest numeral there, or a single character if no numeral starts
there.

These conditions leave no choice.  `Token.scanFrom_eq_iff` is the induction over
the text: a blank is outside of every span (`Token.segmentation_blank`), and at
any other character the first token begins (`Token.segmentation_token`).
-/

namespace SaveRam.Token

open Numeral (Writes)

/-! ## Segmentations -/

/-- The token that may stand at a place where the text goes on with `w` and
then `after`, with its value. -/
inductive Lexeme : (w after : List Char) → (value : Option Int64) → Prop where
  | number {n : Int} {w after : List Char} (hw : Writes n w)
      (hlongest : ∀ m v, Writes m v → v <+: w ++ after → v.length ≤ w.length)
      (hfits : n.natAbs < 2 ^ 63) : Lexeme w after (some (Int64.ofInt n))
  | tooLarge {n : Int} {w after : List Char} (hw : Writes n w)
      (hlongest : ∀ m v, Writes m v → v <+: w ++ after → v.length ≤ w.length)
      (hlarge : 2 ^ 63 ≤ n.natAbs) : Lexeme w after none
  | stray {c : Char} {after : List Char} (hnone : ∀ n w, Writes n w → ¬ w <+: c :: after) :
      Lexeme [c] after none

/-- The tokens `ts` cut up the text `cs`, which starts at byte `start`. -/
structure Segmentation (start : Nat) (cs : List Char) (ts : List Token) : Prop where
  nonempty : ∀ t ∈ ts, t.text ≠ []
  ordered : ts.Pairwise fun t u => t.stop ≤ u.start
  place : ∀ t ∈ ts, ∃ before after, cs = before ++ t.text ++ after ∧
    t.start = start + (String.ofList before).utf8ByteSize ∧ Lexeme t.text after t.value
  nonblank : ∀ t ∈ ts, ∀ c ∈ t.text, ¬ isBlank c
  covered : ∀ before c after, cs = before ++ c :: after → ¬ isBlank c →
    ∃ t ∈ ts, t.start ≤ start + (String.ofList before).utf8ByteSize ∧
      start + (String.ofList before).utf8ByteSize < t.stop

/-! ## Lengths in bytes -/

@[simp] theorem byteLength_nil : byteLength [] = 0 := rfl

@[simp] theorem byteLength_cons (c : Char) (cs : List Char) :
    byteLength (c :: cs) = c.utf8Size + byteLength cs := rfl

@[simp] theorem byteLength_append (cs ds : List Char) :
    byteLength (cs ++ ds) = byteLength cs + byteLength ds := by
  induction cs with
  | nil => exact (Nat.zero_add _).symm
  | cons c cs ih => simp only [List.cons_append, byteLength_cons, ih, Nat.add_assoc]

theorem byteLength_pos {cs : List Char} (h : cs ≠ []) : 0 < byteLength cs := by
  cases cs with
  | nil => exact absurd rfl h
  | cons c cs =>
    have hc := c.utf8Size_pos
    rw [byteLength_cons]
    omega

/-- The bytes of a text are counted in UTF-8. -/
@[simp] theorem utf8ByteSize_ofList (cs : List Char) :
    (String.ofList cs).utf8ByteSize = byteLength cs := by
  induction cs with
  | nil => rfl
  | cons c cs ih =>
    have hsplit : String.ofList (c :: cs) = String.singleton c ++ String.ofList cs := by
      rw [String.singleton_eq_ofList, ← String.ofList_append]
      rfl
    rw [hsplit, String.utf8ByteSize_append, String.utf8ByteSize_singleton, ih, byteLength_cons]

/-- Of two beginnings of a text, the one with fewer bytes begins the other. -/
theorem prefix_of_byteLength_le {v w cs : List Char} (hv : v <+: cs) (hw : w <+: cs)
    (h : byteLength v ≤ byteLength w) : v <+: w := by
  rcases List.prefix_or_prefix_of_prefix hv hw with hvw | ⟨rest, rfl⟩
  · exact hvw
  · by_cases hrest : rest = []
    · simp [hrest]
    · have hpos := byteLength_pos hrest
      rw [byteLength_append] at h
      omega

/-! ## The token at a place -/

theorem first_of_numeral {start : Nat} {c : Char} {cs w : List Char}
    (h : numeral (c :: cs) = w) (hne : w ≠ []) :
    first start c cs = ⟨start, w, Numeral.parse? w⟩ := by
  unfold first
  rw [h]
  split
  · exact absurd rfl hne
  · rfl

theorem first_of_stray {start : Nat} {c : Char} {cs : List Char}
    (h : numeral (c :: cs) = []) : first start c cs = ⟨start, [c], none⟩ := by
  unfold first
  rw [h]

/-- At the start of a text, the first token and no other is allowed. -/
theorem lexeme_iff_first {t : Token} {c : Char} {cs after : List Char}
    (htext : c :: cs = t.text ++ after) :
    Lexeme t.text after t.value ↔ first t.start c cs = t := by
  obtain ⟨start, w, value⟩ := t
  dsimp only at htext ⊢
  constructor
  · intro h
    cases h with
    | number hw hlongest hfits =>
      have htaken := (numeral_eq_iff hw).2 ⟨List.prefix_append w after, hlongest⟩
      rw [← htext] at htaken
      rw [first_of_numeral htaken hw.ne_nil, Numeral.parse?_of_writes hw, if_pos hfits]
    | tooLarge hw hlongest hlarge =>
      have htaken := (numeral_eq_iff hw).2 ⟨List.prefix_append w after, hlongest⟩
      rw [← htext] at htaken
      rw [first_of_numeral htaken hw.ne_nil, Numeral.parse?_of_writes hw,
        if_neg (Nat.not_lt.2 hlarge)]
    | stray hnone =>
      cases htext
      exact first_of_stray (numeral_eq_nil_iff.2 hnone)
  · intro h
    by_cases hnil : numeral (c :: cs) = []
    · rw [first_of_stray hnil] at h
      cases h
      cases htext
      exact .stray (numeral_eq_nil_iff.1 hnil)
    · rw [first_of_numeral rfl hnil] at h
      obtain ⟨n, hn⟩ := exists_writes_numeral hnil
      have hlongest : ∀ m v, Writes m v → v <+: c :: cs → v.length ≤ (numeral (c :: cs)).length :=
        fun m v hv => length_le_numeral hv
      obtain ⟨hw, hvalue⟩ : numeral (c :: cs) = w ∧ Numeral.parse? (numeral (c :: cs)) = value := by
        cases h
        exact ⟨rfl, rfl⟩
      rw [Numeral.parse?_of_writes hn] at hvalue
      rw [hw, htext] at hlongest
      rw [hw] at hn
      split_ifs at hvalue with hfits
      · rw [← hvalue]
        exact .number hn hlongest hfits
      · rw [← hvalue]
        exact .tooLarge hn hlongest (Nat.not_lt.1 hfits)

/-- A token that may stand at a place holds no blank, if there is none at the
place. -/
theorem Lexeme.not_isBlank {c : Char} {cs w after : List Char} {value : Option Int64}
    (h : Lexeme w after value) (htext : c :: cs = w ++ after) (hc : ¬ isBlank c) :
    ∀ d ∈ w, ¬ isBlank d := by
  intro d hd
  cases h with
  | number hw | tooLarge hw => exact hw.not_isBlank hd
  | stray =>
    cases htext
    rw [List.mem_singleton.1 hd]
    exact hc

/-! ## One step of a segmentation -/

theorem segmentation_nil {start : Nat} {ts : List Token} :
    Segmentation start [] ts ↔ ts = [] := by
  constructor
  · intro h
    cases ts with
    | nil => rfl
    | cons t ts =>
      obtain ⟨before, after, htext, -⟩ := h.place t List.mem_cons_self
      have hempty : before = [] ∧ t.text = [] ∧ after = [] := by simpa using htext
      exact absurd hempty.2.1 (h.nonempty t List.mem_cons_self)
  · rintro rfl
    exact ⟨by simp, .nil, by simp, by simp, by simp⟩

/-- A blank is outside of all spans. -/
theorem segmentation_blank {start : Nat} {c : Char} {cs : List Char} {ts : List Token}
    (hc : isBlank c) :
    Segmentation start (c :: cs) ts ↔ Segmentation (start + c.utf8Size) cs ts := by
  constructor
  · intro h
    refine ⟨h.nonempty, h.ordered, ?_, h.nonblank, ?_⟩
    · intro t ht
      obtain ⟨before, after, htext, hstart, hlexeme⟩ := h.place t ht
      cases before with
      | nil =>
        -- The token would begin with the blank.
        obtain ⟨d, w, hw⟩ := List.exists_cons_of_ne_nil (h.nonempty t ht)
        rw [hw] at htext
        cases htext
        exact absurd hc (h.nonblank t ht c (by rw [hw]; exact List.mem_cons_self))
      | cons d before =>
        cases htext
        refine ⟨before, after, rfl, ?_, hlexeme⟩
        simp only [utf8ByteSize_ofList, byteLength_cons] at hstart ⊢
        omega
    · intro before d after htext hd
      obtain ⟨t, ht, hcover⟩ := h.covered (c :: before) d after (by rw [htext]; rfl) hd
      simp only [utf8ByteSize_ofList, byteLength_cons, ← Nat.add_assoc] at hcover ⊢
      exact ⟨t, ht, hcover⟩
  · intro h
    refine ⟨h.nonempty, h.ordered, ?_, h.nonblank, ?_⟩
    · intro t ht
      obtain ⟨before, after, htext, hstart, hlexeme⟩ := h.place t ht
      refine ⟨c :: before, after, by rw [htext]; rfl, ?_, hlexeme⟩
      simp only [utf8ByteSize_ofList, byteLength_cons] at hstart ⊢
      omega
    · intro before d after htext hd
      cases before with
      | nil =>
        cases htext
        exact absurd hc hd
      | cons b before =>
        cases htext
        obtain ⟨t, ht, hcover⟩ := h.covered before d after rfl hd
        simp only [utf8ByteSize_ofList, byteLength_cons, ← Nat.add_assoc] at hcover ⊢
        exact ⟨t, ht, hcover⟩

/-- No span starts before the text. -/
theorem Segmentation.start_le {start : Nat} {cs : List Char} {ts : List Token}
    (h : Segmentation start cs ts) {t : Token} (ht : t ∈ ts) : start ≤ t.start := by
  obtain ⟨_, _, _, hstart, _⟩ := h.place t ht
  omega

theorem Segmentation.start_lt_stop {start : Nat} {cs : List Char} {ts : List Token}
    (h : Segmentation start cs ts) {t : Token} (ht : t ∈ ts) : t.start < t.stop := by
  have hpos := byteLength_pos (h.nonempty t ht)
  unfold Token.stop
  omega

/-- A text that does not begin with a blank begins with its first token. -/
theorem Segmentation.exists_first {start : Nat} {c : Char} {cs : List Char} {ts : List Token}
    (h : Segmentation start (c :: cs) ts) (hc : ¬ isBlank c) :
    ∃ us, ts = first start c cs :: us := by
  -- Some token covers the first character, and it can only start there.
  obtain ⟨t, ht, hle, -⟩ := h.covered [] c cs rfl hc
  obtain ⟨before, after, htext, hstart, hlexeme⟩ := h.place t ht
  simp only [utf8ByteSize_ofList, byteLength_nil] at hle hstart
  have hbefore : before = [] := by
    by_contra hne
    have hpos := byteLength_pos hne
    omega
  rw [hbefore, List.nil_append] at htext
  rw [hbefore, byteLength_nil, Nat.add_zero] at hstart
  have hfirst := (lexeme_iff_first htext).1 hlexeme
  rw [hstart] at hfirst
  rw [hfirst]
  -- A token before it would have to end before the text begins.
  obtain ⟨us, vs, rfl⟩ := List.append_of_mem ht
  cases us with
  | nil => exact ⟨vs, rfl⟩
  | cons u us =>
    have hu : u ∈ u :: us ++ t :: vs := List.mem_cons_self
    have hle' : u.stop ≤ t.start := by
      have hordered := h.ordered
      rw [List.cons_append, List.pairwise_cons] at hordered
      exact hordered.1 t (by simp)
    have hlow := h.start_le hu
    have hspan := h.start_lt_stop hu
    omega

/-- The tokens behind the first one cut up the text behind it. -/
theorem Segmentation.tail {start : Nat} {t : Token} {rest : List Char} {us : List Token}
    (h : Segmentation start (t.text ++ rest) (t :: us)) (hstart : t.start = start) :
    Segmentation t.stop rest us := by
  have hordered := List.pairwise_cons.1 h.ordered
  refine ⟨fun u hu => h.nonempty u (List.mem_cons_of_mem t hu), hordered.2, ?_,
    fun u hu => h.nonblank u (List.mem_cons_of_mem t hu), ?_⟩
  · intro u hu
    obtain ⟨before, after, htext, hplace, hlexeme⟩ := h.place u (List.mem_cons_of_mem t hu)
    have hle := hordered.1 u hu
    simp only [utf8ByteSize_ofList] at hplace ⊢
    -- The first token lies in front of `u`, so its text begins what is before `u`.
    have hbegins : t.text <+: before := by
      have hbefore : before <+: t.text ++ rest :=
        ⟨u.text ++ after, by rw [htext, List.append_assoc]⟩
      refine prefix_of_byteLength_le (List.prefix_append t.text rest) hbefore ?_
      unfold Token.stop at hle
      omega
    obtain ⟨gap, rfl⟩ := hbegins
    rw [List.append_assoc, List.append_assoc, List.append_cancel_left_eq] at htext
    refine ⟨gap, after, by rw [htext, List.append_assoc], ?_, hlexeme⟩
    rw [byteLength_append] at hplace
    unfold Token.stop
    omega
  · intro before c after htext hc
    obtain ⟨u, hu, hlow, hhigh⟩ := h.covered (t.text ++ before) c after
      (by rw [htext, List.append_assoc]) hc
    simp only [utf8ByteSize_ofList, byteLength_append] at hlow hhigh ⊢
    unfold Token.stop at hhigh ⊢
    rcases List.mem_cons.1 hu with rfl | hu
    · omega
    · exact ⟨u, hu, by omega, by omega⟩

/-- A token that may stand at the start of a text goes in front of the tokens
that cut up the rest. -/
theorem Segmentation.cons {t : Token} {rest : List Char} {us : List Token}
    (hne : t.text ≠ []) (hlexeme : Lexeme t.text rest t.value)
    (hblank : ∀ c ∈ t.text, ¬ isBlank c) (h : Segmentation t.stop rest us) :
    Segmentation t.start (t.text ++ rest) (t :: us) := by
  refine ⟨?_, List.pairwise_cons.2 ⟨fun u hu => h.start_le hu, h.ordered⟩, ?_, ?_, ?_⟩
  · exact List.forall_mem_cons.2 ⟨hne, h.nonempty⟩
  · intro u hu
    rcases List.mem_cons.1 hu with rfl | hu
    · exact ⟨[], rest, rfl, rfl, hlexeme⟩
    · obtain ⟨before, after, htext, hstart, hlexeme⟩ := h.place u hu
      refine ⟨t.text ++ before, after, by rw [htext]; simp only [List.append_assoc], ?_, hlexeme⟩
      simp only [utf8ByteSize_ofList, byteLength_append] at hstart ⊢
      unfold Token.stop at hstart
      omega
  · exact List.forall_mem_cons.2 ⟨hblank, h.nonblank⟩
  · intro before c after htext hc
    simp only [utf8ByteSize_ofList]
    by_cases hinside : byteLength before < byteLength t.text
    · refine ⟨t, List.mem_cons_self, by omega, ?_⟩
      unfold Token.stop
      omega
    · -- The character is behind the token.
      obtain ⟨gap, rfl⟩ := prefix_of_byteLength_le (List.prefix_append t.text rest)
        ⟨c :: after, htext.symm⟩ (Nat.not_lt.1 hinside)
      rw [List.append_assoc, List.append_cancel_left_eq] at htext
      obtain ⟨u, hu, hlow, hhigh⟩ := h.covered gap c after htext hc
      simp only [utf8ByteSize_ofList, byteLength_append] at hlow hhigh ⊢
      refine ⟨u, List.mem_cons_of_mem t hu, ?_, ?_⟩
      · unfold Token.stop at hlow
        omega
      · unfold Token.stop at hhigh ⊢
        omega

theorem start_first (start : Nat) (c : Char) (cs : List Char) :
    (first start c cs).start = start := by
  by_cases hnil : numeral (c :: cs) = []
  · rw [first_of_stray hnil]
  · rw [first_of_numeral rfl hnil]

/-- The first token is a part of the text. -/
theorem first_append (start : Nat) (c : Char) (cs : List Char) :
    (first start c cs).text ++ (c :: cs).drop (first start c cs).text.length = c :: cs := by
  have hbegins : (first start c cs).text <+: c :: cs := by
    by_cases hnil : numeral (c :: cs) = []
    · rw [first_of_stray hnil]
      exact ⟨cs, rfl⟩
    · rw [first_of_numeral rfl hnil]
      exact numeral_isPrefix (c :: cs)
  exact List.prefix_iff_eq_append.1 hbegins

/-- One step of a segmentation: the first token, and a segmentation of the rest
of the text. -/
theorem segmentation_token {start : Nat} {c : Char} {cs : List Char} {ts : List Token}
    (hc : ¬ isBlank c) :
    Segmentation start (c :: cs) ts ↔
      ∃ us, ts = first start c cs :: us ∧
        Segmentation (first start c cs).stop
          ((c :: cs).drop (first start c cs).text.length) us := by
  have htext := first_append start c cs
  have hstart := start_first start c cs
  have hlexeme := (lexeme_iff_first htext.symm).2 (by rw [hstart])
  constructor
  · intro h
    obtain ⟨us, rfl⟩ := h.exists_first hc
    rw [← htext] at h
    exact ⟨us, rfl, h.tail hstart⟩
  · rintro ⟨us, rfl, h⟩
    have hne := List.length_pos_iff.1 (length_first_pos start c cs)
    have hcut := h.cons hne hlexeme (hlexeme.not_isBlank htext.symm hc)
    rw [hstart, htext] at hcut
    exact hcut

/-! ## Scanning -/

/-- Scanning a text that starts at any byte gives its one segmentation. -/
theorem scanFrom_eq_iff (start : Nat) (cs : List Char) (ts : List Token) :
    scanFrom start cs = ts ↔ Segmentation start cs ts := by
  induction start, cs using scanFrom.induct generalizing ts with
  | case1 start => rw [scanFrom, segmentation_nil, eq_comm]
  | case2 start c cs hc ih => rw [scanFrom, if_pos hc, ih, segmentation_blank hc]
  | case3 start c cs hc token ih =>
    rw [scanFrom, if_neg hc, segmentation_token hc]
    constructor
    · rintro rfl
      exact ⟨_, rfl, (ih _).1 rfl⟩
    · rintro ⟨us, rfl, h⟩
      rw [← (ih us).2 h]

/-- The tokens of a text are the only ones that cut it up. -/
theorem scan_eq_iff (text : String) (ts : List Token) :
    scan text = ts ↔ Segmentation 0 text.toList ts :=
  scanFrom_eq_iff 0 text.toList ts

end SaveRam.Token
