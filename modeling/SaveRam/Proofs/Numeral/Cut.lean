import SaveRam.Proofs.Numeral.Grammar
import SaveRam.Proofs.Token.Segmentation

/-!
# Numerals in texts that are cut at bytes

A text in UTF-8 can be read by looking at its first byte and by cutting it at places
that are counted in bytes.  Such a cut makes no sense inside of a character:
`Token.behind?` gives nothing there.  `Numeral.cutParse?` reads a number in this way,
and `Numeral.cutParse?_eq` says that no text at all makes one of its cuts fail and that
it reads what `Numeral.parse?` reads.

The reason is that a cut follows only what was seen.  A byte below 128 is a character of
its own (`Token.head?_utf8_eq_iff`), so the text can be cut behind a sign, a zero or `0x`
(`Token.behind?_eq_some_iff`).

`Numeral.value_of_text` collects what is known about reading any text.
-/

namespace SaveRam

namespace Token

/-! ## Texts as bytes -/

/-- The bytes of a text in UTF-8. -/
def utf8 (cs : List Char) : List UInt8 := cs.flatMap String.utf8EncodeChar

/-- A text has as many bytes as its characters together. -/
theorem length_utf8 (cs : List Char) : (utf8 cs).length = byteLength cs := by
  induction cs with
  | nil => rfl
  | cons c cs ih =>
    rw [byteLength_cons, ← ih, utf8, List.flatMap_cons, List.length_append,
      String.length_utf8EncodeChar]
    rfl

/-- The text behind its first `k` bytes.  There is none when the text is shorter or when
the cut falls inside of a character. -/
def behind? : (k : Nat) → List Char → Option (List Char)
  | 0, cs => some cs
  | _ + 1, [] => none
  | k + 1, c :: cs => if c.utf8Size ≤ k + 1 then behind? (k + 1 - c.utf8Size) cs else none

theorem behind?_cons {k : Nat} {c : Char} (h : c.utf8Size ≤ k) (cs : List Char) :
    behind? k (c :: cs) = behind? (k - c.utf8Size) cs := by
  have hc := c.utf8Size_pos
  obtain ⟨k, rfl⟩ : ∃ m, k = m + 1 := ⟨k - 1, by omega⟩
  rw [behind?, if_pos h]

theorem behind?_append (front rest : List Char) :
    behind? (byteLength front) (front ++ rest) = some rest := by
  induction front with
  | nil => cases rest <;> rfl
  | cons c front ih =>
    rw [byteLength_cons, List.cons_append, behind?_cons (Nat.le_add_right _ _),
      Nat.add_sub_cancel_left]
    exact ih

/-- Texts can be cut where a character ends, and nowhere else. -/
theorem behind?_eq_some_iff {k : Nat} {cs rest : List Char} :
    behind? k cs = some rest ↔ ∃ front, cs = front ++ rest ∧ byteLength front = k := by
  constructor
  · intro h
    induction k, cs using behind?.induct with
    | case1 cs => exact ⟨[], by simpa [behind?] using h, rfl⟩
    | case2 k => cases h
    | case3 k c cs hc ih =>
      rw [behind?_cons hc] at h
      obtain ⟨front, rfl, hfront⟩ := ih h
      refine ⟨c :: front, rfl, ?_⟩
      rw [byteLength_cons, hfront]
      omega
    | case4 k c cs hc =>
      rw [behind?, if_neg hc] at h
      cases h
  · rintro ⟨front, rfl, rfl⟩
    exact behind?_append front rest

/-- A byte below 128 is at the start of no character but its own. -/
theorem head?_utf8_eq_iff {c d : Char} (hd : d.toNat < 128) (cs : List Char) :
    (utf8 (c :: cs)).head? = some d.toUInt8 ↔ c = d := by
  have hd' : d.val.toNat < 128 := hd
  have hbyte : d.toUInt8.toNat = d.val.toNat := by
    show d.val.toUInt8.toNat = d.val.toNat
    rw [UInt32.toNat_toUInt8]
    exact Nat.mod_eq_of_lt (Nat.lt_trans hd' (by decide))
  have hc := c.val.toNat_lt
  rw [Char.ext_iff, ← UInt32.toNat_inj, utf8, List.flatMap_cons]
  unfold String.utf8EncodeChar
  dsimp only
  -- One case for each number of bytes.  With two or more the first one is large.
  split_ifs <;>
    rw [List.cons_append, List.head?_cons, Option.some_inj, ← UInt8.toNat_inj,
      UInt8.toNat_ofNat', hbyte] <;>
    omega

end Token

namespace Numeral

open Token (behind? behind?_eq_some_iff byteLength byteLength_cons byteLength_pos
  head?_utf8_eq_iff length_utf8 utf8)

/-! ## Reading by cuts -/

/-- The value of a text behind its first sign.  The result is `none` when a cut falls
inside of a character or behind the end. -/
def cutBody? (cs : List Char) : Option (Option Int64) :=
  if ['0', 'x'] <+: cs ∨ ['0', 'X'] <+: cs then
    (behind? 2 cs).map (signed? 16)
  else if 1 < byteLength cs ∧ ['0'] <+: cs then
    (behind? 1 cs).map (signed? 8)
  else
    some (signed? 10 cs)

/-- The value of a numeral, by its first byte.  The result is `none` when a cut falls
inside of a character or behind the end. -/
def cutParse? (cs : List Char) : Option (Option Int64) :=
  match (utf8 cs).head? with
  | none => some none
  | some byte =>
    if byte = '-'.toUInt8 then
      (behind? 1 cs).bind fun body => (cutBody? body).map fun value => value.map fun n => -n
    else if byte = '+'.toUInt8 then
      (behind? 1 cs).bind cutBody?
    else
      cutBody? cs

/-- Behind the first sign, cuts follow a zero or `0x`. -/
theorem cutBody?_eq (cs : List Char) : cutBody? cs = some (body? cs) := by
  unfold cutBody?
  fun_cases body? cs with
  | case1 cs =>
    have hcut : behind? 2 ('0' :: 'x' :: cs) = some cs :=
      behind?_eq_some_iff.2 ⟨['0', 'x'], rfl, rfl⟩
    rw [if_pos (.inl ⟨cs, rfl⟩), hcut, Option.map_some]
  | case2 cs =>
    have hcut : behind? 2 ('0' :: 'X' :: cs) = some cs :=
      behind?_eq_some_iff.2 ⟨['0', 'X'], rfl, rfl⟩
    rw [if_pos (.inr ⟨cs, rfl⟩), hcut, Option.map_some]
  | case3 c cs hx hX =>
    have hhex : ¬ (['0', 'x'] <+: '0' :: c :: cs ∨ ['0', 'X'] <+: '0' :: c :: cs) := by
      rintro (⟨rest, h⟩ | ⟨rest, h⟩)
      · cases h
        exact hx rfl
      · cases h
        exact hX rfl
    have hlong : 1 < byteLength ('0' :: c :: cs) := by
      have hzero := '0'.utf8Size_pos
      have hc := c.utf8Size_pos
      rw [byteLength_cons, byteLength_cons]
      omega
    have hcut : behind? 1 ('0' :: c :: cs) = some (c :: cs) :=
      behind?_eq_some_iff.2 ⟨['0'], rfl, rfl⟩
    rw [if_neg hhex, if_pos ⟨hlong, c :: cs, rfl⟩, hcut, Option.map_some]
  | case4 cs hx hX hzero =>
    have hhex : ¬ (['0', 'x'] <+: cs ∨ ['0', 'X'] <+: cs) := by
      rintro (⟨rest, rfl⟩ | ⟨rest, rfl⟩)
      · exact hx rest rfl
      · exact hX rest rfl
    have hoctal : ¬ (1 < byteLength cs ∧ ['0'] <+: cs) := by
      rintro ⟨hlong, rest, rfl⟩
      cases rest with
      | nil => exact absurd hlong (by decide)
      | cons c rest => exact hzero c rest rfl
    rw [if_neg hhex, if_neg hoctal]

/-- The first byte tells whether a text begins with a sign. -/
theorem cutParse?_cons (c : Char) (cs : List Char) :
    cutParse? (c :: cs) =
      if c = '-' then
        (behind? 1 (c :: cs)).bind fun body =>
          (cutBody? body).map fun value => value.map fun n => -n
      else if c = '+' then
        (behind? 1 (c :: cs)).bind cutBody?
      else
        cutBody? (c :: cs) := by
  have hne : utf8 (c :: cs) ≠ [] := by
    refine List.ne_nil_of_length_pos ?_
    rw [length_utf8]
    exact byteLength_pos (List.cons_ne_nil c cs)
  obtain ⟨byte, rest, hbytes⟩ := List.exists_cons_of_ne_nil hne
  have hbyte : (utf8 (c :: cs)).head? = some byte := by rw [hbytes, List.head?_cons]
  have hminus : byte = '-'.toUInt8 ↔ c = '-' := by
    rw [← head?_utf8_eq_iff (by decide) cs, hbyte, Option.some_inj]
  have hplus : byte = '+'.toUInt8 ↔ c = '+' := by
    rw [← head?_utf8_eq_iff (by decide) cs, hbyte, Option.some_inj]
  rw [cutParse?, hbyte]
  simp only [hminus, hplus]

/-- No cut fails, and what is read is the value of the text. -/
theorem cutParse?_eq (cs : List Char) : cutParse? cs = some (parse? cs) := by
  cases cs with
  | nil => rfl
  | cons c cs =>
    rw [cutParse?_cons]
    split_ifs with hminus hplus
    · subst hminus
      have hcut : behind? 1 ('-' :: cs) = some cs :=
        behind?_eq_some_iff.2 ⟨['-'], rfl, rfl⟩
      rw [hcut, Option.bind_some, cutBody?_eq, Option.map_some]
      rfl
    · subst hplus
      have hcut : behind? 1 ('+' :: cs) = some cs :=
        behind?_eq_some_iff.2 ⟨['+'], rfl, rfl⟩
      rw [hcut, Option.bind_some, cutBody?_eq]
      rfl
    · have hbare : Bare (c :: cs) := ⟨by simpa using hplus, by simpa using hminus⟩
      rw [cutBody?_eq, parse?_of_bare hbare]

/-! ## Any text -/

/-- What is read of any text, apart from those that have the least 64-bit number behind a
minus sign.  A text is read exactly if it is an optional sign with one of the forms behind
it whose own value has 64 bits, and it is worth that value under the sign.  In particular
a numeral is worth its number if the magnitude is below `2 ^ 63`, and it is not read if the
magnitude is larger.  A reader that cuts texts at bytes reads the same, and no text makes
it cut inside of a character. -/
theorem value_of_text :
    (∀ cs : List Char, (∀ body, cs = '-' :: body → ¬ Body .minus (-2 ^ 63) body) →
      ∀ v : Int64, parse? cs = some v ↔
        ∃ (a : Sign) (i : Int) (body : List Char), cs = a.text ++ body ∧ Body a i body ∧
          (-2 ^ 63 ≤ i ∧ i < 2 ^ 63) ∧ v.toInt = a.apply i) ∧
    (∀ (n : Int) (cs : List Char), Writes n cs →
      (n.natAbs < 2 ^ 63 → ∃ v, parse? cs = some v ∧ v.toInt = n) ∧
      (2 ^ 63 ≤ n.natAbs → parse? cs = none)) ∧
    ∀ cs : List Char, cutParse? cs = some (parse? cs) := by
  refine ⟨fun cs hleast v => ?_, fun n cs h => ⟨fun hsmall => ?_, fun hlarge => ?_⟩, cutParse?_eq⟩
  · rw [parse?_eq_some_iff]
    constructor
    · rintro ⟨a, w, body, rfl, hbody, rfl⟩
      refine ⟨a, w.toInt, body, rfl, hbody, ⟨w.le_toInt, w.toInt_lt⟩, Sign.toInt_apply ?_⟩
      rintro rfl hw
      rw [hw] at hbody
      exact hleast body rfl hbody
    · rintro ⟨a, i, body, rfl, hbody, ⟨hlow, hhigh⟩, hv⟩
      have hi : (Int64.ofInt i).toInt = i := Int64.toInt_ofInt_of_le hlow hhigh
      refine ⟨a, Int64.ofInt i, body, rfl, by rwa [hi], Int64.toInt_inj.1 ?_⟩
      rw [hv, Sign.toInt_apply, hi]
      rintro rfl hw
      rw [hi] at hw
      rw [hw] at hbody
      exact hleast body rfl hbody
  · refine ⟨Int64.ofInt n, ?_, Int64.toInt_ofInt_of_le (by omega) (by omega)⟩
    rw [parse?_of_writes h, if_pos hsmall]
  · rw [parse?_of_writes h, if_neg (by omega)]

/-- Two signs, a numeral that is too large by one, and one whose leading zeros do no
harm. -/
theorem value_of_text_two_signs :
    (∀ body, ['-', '-', '5'] = '-' :: body → ¬ Body .minus (-2 ^ 63) body) ∧
      parse? ['-', '-', '5'] = some 5 ∧
      Writes (-2 ^ 63) ('-' :: '0' :: 'x' :: '8' :: List.replicate 15 '0') ∧
      parse? ('-' :: '0' :: 'x' :: '8' :: List.replicate 15 '0') = none ∧
      Writes 7 ('0' :: (List.replicate 30 '0' ++ ['7'])) ∧
      (∃ v, parse? ('0' :: (List.replicate 30 '0' ++ ['7'])) = some v ∧ v.toInt = 7) ∧
      cutParse? ['0', 'é'] = some none := by
  obtain ⟨htexts, hnumerals, hcuts⟩ := value_of_text
  have hleast : ∀ body, ['-', '-', '5'] = '-' :: body → ¬ Body .minus (-2 ^ 63) body := by
    rintro body h hbody
    cases h
    have hread : body? ['-', '5'] = some Int64.minValue :=
      (body?_eq_some_iff (by decide)).2 hbody
    revert hread
    decide
  have hfive : Body .minus (-5) ['-', '5'] :=
    .decimal (b := .minus) (by decide) (by decide)
      ⟨5, ['5'], by decide, ⟨[5], .cons ⟨by decide, .inl rfl⟩ .nil, rfl⟩, rfl, rfl⟩
  have hlarge : Writes (-2 ^ 63) ('-' :: '0' :: 'x' :: '8' :: List.replicate 15 '0') :=
    .minus (n := 2 ^ 63) (.hex (.inl rfl) (by decide)
      ((digits?_eq_some_iff (Nat.le_refl 16)).1 (by decide)).2)
  have hzeros : Writes 7 ('0' :: (List.replicate 30 '0' ++ ['7'])) :=
    .bare (n := 7) (.octal ((digits?_eq_some_iff (by decide)).1 (by decide)).2)
  refine ⟨hleast, ?_, hlarge, (hnumerals _ _ hlarge).2 (by decide), hzeros,
    (hnumerals _ _ hzeros).1 (by decide), ?_⟩
  · exact (htexts _ hleast 5).2 ⟨.minus, -5, ['-', '5'], rfl, hfive, by decide, by decide⟩
  · rw [hcuts]
    decide

end Numeral

end SaveRam
