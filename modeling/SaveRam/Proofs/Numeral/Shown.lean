import SaveRam.Proofs.Numeral.Notation
import SaveRam.Text.Columns

/-!
# Numbers that are shown are read back

Reports and listings show numbers in base ten, with as many digits as they need,
and in base sixteen, with a fixed number of digits.  Both are digits in the
sense of `Numeral.Digits`, so readers of digits apply to them:
`Numeral.digits_toString` is the statement for base ten and
`Numeral.digits_hex` the one for base sixteen.

A text of digits is worth one number (`Numeral.Digits.unique`).  So a byte or a
word of sixteen bits at the front of a text is known from the text
(`Hex.byte_append_inj`, `Hex.word_append_inj`).  `Numeral.front?` reads a number
at the front of a text, however many digits it has.
-/

namespace SaveRam

/-- Text is shown as it is. -/
@[simp] theorem toString_string (s : String) : toString s = s := rfl

namespace Numeral

/-! ## Digits -/

section

variable {base n m d : Nat} {cs : List Char} {c : Char}

/-- One more digit at the end. -/
theorem Digits.concat (h : Digits base n cs) (hd : Digit base d c) :
    Digits base (n * base + d) (cs ++ [c]) := by
  obtain ⟨ds, hds, rfl⟩ := h
  refine ⟨ds ++ [d], List.rel_append hds (.cons hd .nil), ?_⟩
  rw [List.reverse_append, List.reverse_singleton, List.singleton_append, Nat.ofDigits_cons,
    Nat.mul_comm, Nat.add_comm]

theorem digits_nil (base : Nat) : Digits base 0 [] := ⟨[], .nil, rfl⟩

/-- Digits are read as what they are worth. -/
theorem Digits.read (hbase : base ≤ 16) (h : Digits base n cs) :
    digitsFrom? base 0 cs = some n := by
  obtain ⟨ds, hds, rfl⟩ := h
  refine (digitsFrom?_eq_some_iff hbase).2 ⟨ds, hds, ?_⟩
  rw [Nat.zero_mul, Nat.zero_add]

/-- A text of digits is worth one number. -/
theorem Digits.unique (hbase : base ≤ 16) (h : Digits base n cs) (h' : Digits base m cs) :
    n = m := by
  have hread := h.read hbase
  rw [h'.read hbase] at hread
  exact (Option.some.inj hread).symm

/-- A character that is no digit in base sixteen is in no text of digits. -/
theorem Digits.not_mem (hbase : base ≤ 16) (h : Digits base n cs)
    (hc : Numeral.isDigit 16 c = false) : c ∉ cs :=
  fun hmem => ne_of_isDigit hbase (h.isDigit hbase hmem) hc rfl

end

/-! ## Base ten -/

theorem digit_digitChar {d : Nat} (h : d < 10) : Digit 10 d d.digitChar := by
  have hdigit : ∀ d : Fin 10, Nat.digitChar d = Hex.digit 'a' d := by decide
  exact ⟨h, .inl (hdigit ⟨d, h⟩)⟩

theorem digits_toDigits (n : Nat) : Digits 10 n (Nat.toDigits 10 n) := by
  induction n using Nat.strongRecOn with
  | ind n ih =>
    rw [Nat.toDigits_eq_if (by omega)]
    split
    · rename_i hn
      have hdigits := (digits_nil 10).concat (digit_digitChar hn)
      rwa [Nat.zero_mul, Nat.zero_add] at hdigits
    · have hdigits := (ih (n / 10) (by omega)).concat (digit_digitChar (Nat.mod_lt n (by omega)))
      rwa [Nat.div_add_mod'] at hdigits

/-- A natural number is shown by its digits. -/
theorem digits_toString (n : Nat) : Digits 10 n (toString n).toList := by
  rw [Nat.toString_eq_repr, Nat.toList_repr]
  exact digits_toDigits n

theorem toString_ne_nil (n : Nat) : (toString n).toList ≠ [] := by
  rw [Nat.toString_eq_repr, Nat.toList_repr]
  exact Nat.toDigits_ne_nil

/-- An integer is shown by digits, with a minus sign in front if it is
negative. -/
theorem not_mem_toString_int {c : Char} (hc : isDigit 16 c = false) (hminus : c ≠ '-') (i : Int) :
    c ∉ (toString i).toList := by
  cases i with
  | ofNat n => exact (digits_toString n).not_mem (by omega) hc
  | negSucc n =>
    show c ∉ ("-" ++ toString (n + 1)).toList
    rw [String.toList_append, List.mem_append, not_or]
    exact ⟨by simpa using hminus, (digits_toString (n + 1)).not_mem (by omega) hc⟩

/-! ## Numbers in front -/

/-- The number at the front of a text, with what stands behind its digits. -/
def front? (base : Nat) (cs : List Char) : Option (Nat × List Char) :=
  (digits? base (cs.takeWhile (isDigit base))).map fun n => (n, cs.dropWhile (isDigit base))

/-- Digits are read as far as they go. -/
theorem front?_append {base n : Nat} {cs : List Char} {c : Char} (hbase : base ≤ 16)
    (hne : cs ≠ []) (h : Digits base n cs) (hc : isDigit base c = false) (rest : List Char) :
    front? base (cs ++ c :: rest) = some (n, c :: rest) := by
  have hall : ∀ d ∈ cs, isDigit base d := fun d hd => h.isDigit hbase hd
  have hstop : ¬ isDigit base c := by simp [hc]
  rw [front?, List.takeWhile_append_of_pos hall, List.dropWhile_append_of_pos hall,
    List.takeWhile_cons_of_neg hstop, List.dropWhile_cons_of_neg hstop, List.append_nil,
    (digits?_eq_some_iff hbase).2 ⟨hne, h⟩, Option.map_some]

/-! ## Base sixteen -/

/-- A number is shown by its last digits. -/
theorem digits_hex {letterA : Char} (hletter : letterA = 'a' ∨ letterA = 'A') (width n : Nat) :
    Digits 16 (n % 16 ^ width) (Hex.digits letterA width n) := by
  induction width generalizing n with
  | zero =>
    rw [Nat.pow_zero, Nat.mod_one]
    exact digits_nil 16
  | succ width ih =>
    have hdigit : Digit 16 (n % 16) (Hex.digit letterA (n % 16)) := by
      rcases hletter with rfl | rfl
      · exact ⟨Nat.mod_lt n (by omega), .inl rfl⟩
      · exact ⟨Nat.mod_lt n (by omega), .inr rfl⟩
    have hvalue : n % 16 ^ (width + 1) = n / 16 % 16 ^ width * 16 + n % 16 := by
      rw [Nat.pow_succ', Nat.mod_mul]
      omega
    rw [hvalue]
    exact (ih (n / 16)).concat hdigit

end Numeral

namespace Hex

/-- The digits at the front of a text tell the last digits of a number. -/
theorem digits_append_inj {width n m : Nat} {xs ys : List Char}
    (h : digits 'a' width n ++ xs = digits 'a' width m ++ ys) :
    n % 16 ^ width = m % 16 ^ width ∧ xs = ys := by
  obtain ⟨hdigits, hrest⟩ := List.append_inj h (by rw [length_digits, length_digits])
  have hn := Numeral.digits_hex (.inl rfl) width n
  rw [hdigits] at hn
  exact ⟨hn.unique (by omega) (Numeral.digits_hex (.inl rfl) width m), hrest⟩

@[simp] theorem toList_upper (width n : Nat) : (upper width n).toList = digits 'A' width n :=
  String.toList_ofList

@[simp] theorem toList_word (w : UInt16) : (word w).toList = digits 'a' 4 w.toNat := by
  rw [word, lower, String.toList_ofList]

@[simp] theorem toList_byte (b : UInt8) : (byte b).toList = digits 'a' 2 b.toNat := by
  rw [byte, lower, String.toList_ofList]

theorem word_append_inj {v w : UInt16} {xs ys : List Char}
    (h : digits 'a' 4 v.toNat ++ xs = digits 'a' 4 w.toNat ++ ys) : v = w ∧ xs = ys := by
  obtain ⟨hvalue, hrest⟩ := digits_append_inj h
  have hv : v.toNat < 16 ^ 4 := v.toNat_lt
  have hw : w.toNat < 16 ^ 4 := w.toNat_lt
  rw [Nat.mod_eq_of_lt hv, Nat.mod_eq_of_lt hw] at hvalue
  exact ⟨UInt16.toNat_inj.1 hvalue, hrest⟩

theorem byte_append_inj {b c : UInt8} {xs ys : List Char}
    (h : digits 'a' 2 b.toNat ++ xs = digits 'a' 2 c.toNat ++ ys) : b = c ∧ xs = ys := by
  obtain ⟨hvalue, hrest⟩ := digits_append_inj h
  have hb : b.toNat < 16 ^ 2 := b.toNat_lt
  have hc : c.toNat < 16 ^ 2 := c.toNat_lt
  rw [Nat.mod_eq_of_lt hb, Nat.mod_eq_of_lt hc] at hvalue
  exact ⟨UInt8.toNat_inj.1 hvalue, hrest⟩

theorem word_inj {v w : UInt16} (h : digits 'a' 4 v.toNat = digits 'a' 4 w.toNat) : v = w :=
  (word_append_inj (congrArg (· ++ []) h)).1

theorem byte_inj {b c : UInt8} (h : digits 'a' 2 b.toNat = digits 'a' 2 c.toNat) : b = c :=
  (byte_append_inj (congrArg (· ++ []) h)).1

theorem not_mem_digits {letterA c : Char} (hletter : letterA = 'a' ∨ letterA = 'A')
    (hc : Numeral.isDigit 16 c = false) (width n : Nat) : c ∉ digits letterA width n :=
  (Numeral.digits_hex hletter width n).not_mem (by omega) hc

end Hex

/-! ## Columns -/

namespace Columns

variable {c : Char}

/-- A number in a column has nothing but digits and spaces. -/
theorem not_mem_alignRight (hc : Numeral.isDigit 16 c = false) (hspace : c ≠ ' ') (width n : Nat) :
    c ∉ (alignRight width (toString n)).toList := by
  rw [alignRight, String.toList_ofList, List.mem_append, not_or]
  exact ⟨fun h => hspace (List.eq_of_mem_replicate h),
    (Numeral.digits_toString n).not_mem (by omega) hc⟩

theorem not_mem_alignLeft (hc : Numeral.isDigit 16 c = false) (hspace : c ≠ ' ') (width n : Nat) :
    c ∉ (alignLeft width (toString n)).toList := by
  rw [alignLeft, String.toList_ofList, List.mem_append, not_or]
  exact ⟨(Numeral.digits_toString n).not_mem (by omega) hc,
    fun h => hspace (List.eq_of_mem_replicate h)⟩

end Columns

end SaveRam
