import Mathlib.Data.List.TakeWhile
import SaveRam.Behavior.Token
import SaveRam.Proofs.Numeral.Notation

/-!
# The numeral at the start of a text

`Token.numeral` takes the longest numeral that a text begins with, in the sense
of `Numeral.Writes`: what it takes is a numeral (`Token.exists_writes_numeral`),
and no numeral at the start of the text is longer (`Token.length_le_numeral`).
It takes nothing exactly when no numeral starts there.

A blank ends every numeral: `Token.numeral_append_of_blank`.  So in front of a blank
a numeral is taken whole (`Token.numeral_append`).
-/

namespace SaveRam

open Numeral (Digits Unsigned Writes isDigit ne_of_isDigit)

namespace Token

/-! ## Numerals without a sign -/

theorem length_le_takeWhile {p : Char → Bool} {w cs : List Char} (hbegins : w <+: cs)
    (hall : ∀ c ∈ w, p c) : w.length ≤ (cs.takeWhile p).length := by
  obtain ⟨rest, rfl⟩ := hbegins
  rw [List.takeWhile_append_of_pos hall, List.length_append]
  omega

theorem digits_takeWhile {base : Nat} (hbase : base ≤ 16) (cs : List Char) :
    ∃ n, Digits base n (cs.takeWhile (isDigit base)) :=
  (Numeral.exists_digits_iff hbase).2 fun _ hc => List.mem_takeWhile_imp hc

/-- What is taken without a sign is a numeral. -/
theorem exists_unsigned {cs : List Char} (hne : unsigned cs ≠ []) :
    ∃ n, Unsigned n (unsigned cs) := by
  revert hne
  fun_cases unsigned cs with
  | case1 x cs h =>
    intro _
    obtain ⟨hx, hhead⟩ := Bool.and_eq_true_iff.1 h
    obtain ⟨c, rest, rfl, hc⟩ : ∃ c rest, cs = c :: rest ∧ isDigit 16 c := by
      cases cs with
      | nil => cases hhead
      | cons c rest => exact ⟨c, rest, rfl, hhead⟩
    obtain ⟨n, hn⟩ := digits_takeWhile (Nat.le_refl 16) (c :: rest)
    refine ⟨n, .hex (by simpa using hx) ?_ hn⟩
    rw [List.takeWhile_cons_of_pos hc]
    exact List.cons_ne_nil _ _
  | case2 x cs h =>
    intro _
    obtain ⟨n, hn⟩ := digits_takeWhile (by omega : 8 ≤ 16) (x :: cs)
    exact ⟨n, .octal hn⟩
  | case3 cs h =>
    intro hne
    cases cs with
    | nil => exact absurd rfl hne
    | cons c cs =>
      obtain ⟨n, hn⟩ := digits_takeWhile (by omega : 10 ≤ 16) (c :: cs)
      by_cases hc : c = '0'
      · -- The zero stands alone, since the first cases take up all others.
        subst hc
        cases cs with
        | nil => exact ⟨0, .octal ⟨[], .nil, rfl⟩⟩
        | cons x cs => exact absurd rfl (h x cs)
      · by_cases hdigit : isDigit 10 c
        · rw [List.takeWhile_cons_of_pos hdigit] at hn ⊢
          exact ⟨n, .decimal hc hn⟩
        · exact absurd (List.takeWhile_cons_of_neg hdigit) hne

/-- A zero is a numeral by itself. -/
theorem length_unsigned_zero (cs : List Char) : 1 ≤ (unsigned ('0' :: cs)).length := by
  cases cs with
  | nil => decide
  | cons x cs =>
    rw [unsigned]
    split <;> simp

/-- No numeral without a sign is longer than the one that is taken. -/
theorem length_le_unsigned {n : Nat} {w cs : List Char} (h : Unsigned n w) (hw : w <+: cs) :
    w.length ≤ (unsigned cs).length := by
  obtain ⟨rest, rfl⟩ := hw
  cases h with
  | @hex x w hx hne hdigits =>
    have hall : ∀ c ∈ w, isDigit 16 c := fun c hc => hdigits.isDigit (Nat.le_refl 16) hc
    have hhead : (w ++ rest).head?.any (isDigit 16) := by
      cases w with
      | nil => exact absurd rfl hne
      | cons c w => exact hall c List.mem_cons_self
    have htaken := length_le_takeWhile (List.prefix_append w rest) hall
    simp only [List.cons_append, unsigned, hhead]
    rcases hx with rfl | rfl <;> simpa using htaken
  | @octal w hdigits =>
    have hall : ∀ c ∈ w, isDigit 8 c := fun c hc => hdigits.isDigit (by omega) hc
    cases w with
    | nil => exact length_unsigned_zero rest
    | cons c w =>
      have htaken := length_le_takeWhile (List.prefix_append (c :: w) rest) hall
      have hc := hall c List.mem_cons_self
      have hx := ne_of_isDigit (by omega) hc (by decide : isDigit 16 'x' = false)
      have hX := ne_of_isDigit (by omega) hc (by decide : isDigit 16 'X' = false)
      have hnohex : (c == 'x' || c == 'X') = false := by simp [hx, hX]
      simp only [List.cons_append, unsigned, hnohex, Bool.false_and]
      simpa using htaken
  | @decimal c w hc hdigits =>
    have hall : ∀ d ∈ c :: w, isDigit 10 d := fun d hd => hdigits.isDigit (by omega) hd
    have htaken := length_le_takeWhile (List.prefix_append (c :: w) rest) hall
    rw [List.cons_append, unsigned]
    · exact htaken
    · simp [hc]

/-! ## Numerals with a sign -/

theorem numeral_sign {c : Char} (h : isSign c) (cs : List Char) :
    numeral (c :: cs) = if unsigned cs = [] then [] else c :: unsigned cs := by
  rw [numeral, if_pos h]
  split <;> simp_all

theorem numeral_bare {c : Char} (h : ¬ isSign c) (cs : List Char) :
    numeral (c :: cs) = unsigned (c :: cs) := by
  rw [numeral, if_neg h]

/-- What is taken is a numeral. -/
theorem exists_writes_numeral {cs : List Char} (hne : numeral cs ≠ []) :
    ∃ n, Writes n (numeral cs) := by
  cases cs with
  | nil => exact absurd rfl hne
  | cons c cs =>
    by_cases hc : isSign c
    · rw [numeral_sign hc] at hne ⊢
      by_cases hnil : unsigned cs = []
      · rw [if_pos hnil] at hne
        exact absurd rfl hne
      · rw [if_neg hnil]
        obtain ⟨n, hn⟩ := exists_unsigned hnil
        have hsign : c = '+' ∨ c = '-' := by simpa [isSign] using hc
        rcases hsign with rfl | rfl
        · exact ⟨_, .plus hn⟩
        · exact ⟨_, .minus hn⟩
    · rw [numeral_bare hc] at hne ⊢
      obtain ⟨n, hn⟩ := exists_unsigned hne
      exact ⟨_, .bare hn⟩

/-- Behind a sign, a numeral is taken whenever one is there. -/
theorem length_le_numeral_sign {n : Nat} {s : Char} {w cs : List Char} (hs : isSign s)
    (h : Unsigned n w) (hw : s :: w <+: cs) : (s :: w).length ≤ (numeral cs).length := by
  obtain ⟨rest, rfl⟩ := hw
  have htaken := length_le_unsigned h (List.prefix_append w rest)
  have hne : unsigned (w ++ rest) ≠ [] := by
    obtain ⟨c, w, rfl, -⟩ := h.exists_cons
    intro hnil
    rw [hnil] at htaken
    simp at htaken
  rw [List.cons_append, numeral_sign hs, if_neg hne]
  simpa using htaken

/-- No numeral at the start of a text is longer than the one that is taken. -/
theorem length_le_numeral {n : Int} {w cs : List Char} (h : Writes n w) (hw : w <+: cs) :
    w.length ≤ (numeral cs).length := by
  cases h with
  | plus h => exact length_le_numeral_sign rfl h hw
  | minus h => exact length_le_numeral_sign rfl h hw
  | bare h =>
    have htaken := length_le_unsigned h hw
    obtain ⟨c, w, rfl, hc⟩ := h.exists_cons
    obtain ⟨rest, rfl⟩ := hw
    have hminus := ne_of_isDigit (by omega) hc (by decide : isDigit 16 '-' = false)
    have hplus := ne_of_isDigit (by omega) hc (by decide : isDigit 16 '+' = false)
    have hsign : ¬ isSign c := by simp [isSign, hminus, hplus]
    rw [List.cons_append, numeral_bare hsign]
    exact htaken

/-- A numeral is taken exactly when it stands at the start of the text and no
longer one does. -/
theorem numeral_eq_iff {n : Int} {w cs : List Char} (h : Writes n w) :
    numeral cs = w ↔ w <+: cs ∧ ∀ m v, Writes m v → v <+: cs → v.length ≤ w.length := by
  constructor
  · rintro rfl
    exact ⟨numeral_isPrefix cs, fun m v hv => length_le_numeral hv⟩
  · rintro ⟨hw, hlongest⟩
    have htaken := length_le_numeral h hw
    have hne : numeral cs ≠ [] := by
      intro hnil
      rw [hnil] at htaken
      exact h.ne_nil (List.eq_nil_of_length_eq_zero (Nat.le_zero.1 htaken))
    obtain ⟨m, hm⟩ := exists_writes_numeral hne
    have hle := hlongest m _ hm (numeral_isPrefix cs)
    have hbegins := List.prefix_of_prefix_length_le (numeral_isPrefix cs) hw hle
    exact hbegins.eq_of_length (Nat.le_antisymm hle htaken)

/-- A text that is a numeral is taken whole. -/
theorem numeral_of_writes {n : Int} {w : List Char} (h : Writes n w) : numeral w = w :=
  (numeral_eq_iff h).2 ⟨List.prefix_rfl, fun _ _ _ hv => hv.length_le⟩

/-- Nothing is taken exactly when no numeral starts the text. -/
theorem numeral_eq_nil_iff {cs : List Char} :
    numeral cs = [] ↔ ∀ n w, Writes n w → ¬ w <+: cs := by
  constructor
  · intro hnil n w h hw
    have htaken := length_le_numeral h hw
    rw [hnil] at htaken
    exact h.ne_nil (List.eq_nil_of_length_eq_zero (Nat.le_zero.1 htaken))
  · intro hnone
    by_contra hne
    obtain ⟨n, hn⟩ := exists_writes_numeral hne
    exact hnone n _ hn (numeral_isPrefix cs)

/-! ## Numerals and blanks -/

end Token

namespace Numeral

theorem not_isBlank_of_isDigit {base : Nat} {c : Char} (hbase : base ≤ 16)
    (h : isDigit base c) : ¬ Token.isBlank c := by
  intro hblank
  have hwidest := isDigit_widest hbase h
  simp only [Token.isBlank, Bool.or_eq_true, beq_iff_eq] at hblank
  rcases hblank with ((((rfl | rfl) | rfl) | rfl) | rfl) | rfl <;> revert hwidest <;> decide

theorem Unsigned.not_isBlank {n : Nat} {w : List Char} (h : Unsigned n w) {c : Char}
    (hc : c ∈ w) : ¬ Token.isBlank c := by
  cases h with
  | hex hx _ hdigits =>
    rcases List.mem_cons.1 hc with rfl | hc
    · decide
    rcases List.mem_cons.1 hc with rfl | hc
    · rcases hx with rfl | rfl <;> decide
    · exact not_isBlank_of_isDigit (Nat.le_refl 16) (hdigits.isDigit (Nat.le_refl 16) hc)
  | octal hdigits =>
    rcases List.mem_cons.1 hc with rfl | hc
    · decide
    · exact not_isBlank_of_isDigit (by omega) (hdigits.isDigit (by omega) hc)
  | decimal _ hdigits =>
    exact not_isBlank_of_isDigit (by omega) (hdigits.isDigit (by omega) hc)

/-- There is no blank inside a numeral. -/
theorem Writes.not_isBlank {n : Int} {w : List Char} (h : Writes n w) {c : Char}
    (hc : c ∈ w) : ¬ Token.isBlank c := by
  cases h with
  | bare h => exact h.not_isBlank hc
  | plus h | minus h =>
    rcases List.mem_cons.1 hc with rfl | hc
    · decide
    · exact h.not_isBlank hc

end Numeral

namespace Token

/-- A numeral at the start of a text ends before the first blank. -/
theorem isPrefix_of_writes {n : Int} {w cs rest : List Char} (h : Writes n w)
    (hrest : ∀ c ∈ rest.head?, isBlank c) (hw : w <+: cs ++ rest) : w <+: cs := by
  rcases List.prefix_or_prefix_of_prefix hw (List.prefix_append cs rest) with hcs | ⟨u, rfl⟩
  · exact hcs
  cases u with
  | nil => simp
  | cons c u =>
    -- The numeral would hold the blank.
    obtain ⟨tail, htail⟩ := (List.prefix_append_right_inj cs).1 hw
    have hblank : isBlank c := hrest c (by rw [← htail]; rfl)
    exact absurd hblank (h.not_isBlank (List.mem_append_right cs List.mem_cons_self))

/-- What follows from a blank on does not matter for the numeral that is taken. -/
theorem numeral_append_of_blank {cs rest : List Char} (hrest : ∀ c ∈ rest.head?, isBlank c) :
    numeral (cs ++ rest) = numeral cs := by
  have hlonger {v : List Char} (hv : v <+: cs) : v <+: cs ++ rest :=
    hv.trans (List.prefix_append cs rest)
  by_cases hnil : numeral (cs ++ rest) = []
  · rw [hnil, eq_comm, numeral_eq_nil_iff]
    exact fun n w h hw => numeral_eq_nil_iff.1 hnil n w h (hlonger hw)
  · obtain ⟨n, hn⟩ := exists_writes_numeral hnil
    have hbegins := isPrefix_of_writes hn hrest (numeral_isPrefix (cs ++ rest))
    exact ((numeral_eq_iff hn).2 ⟨hbegins, fun m v hv hw => length_le_numeral hv (hlonger hw)⟩).symm

/-- In front of a blank, and at the end of a text, a numeral is taken whole. -/
theorem numeral_append {n : Int} {w rest : List Char} (h : Writes n w)
    (hrest : ∀ c ∈ rest.head?, isBlank c) : numeral (w ++ rest) = w := by
  rw [numeral_append_of_blank hrest, numeral_of_writes h]

end Token

end SaveRam
