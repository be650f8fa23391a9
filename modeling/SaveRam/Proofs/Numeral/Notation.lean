import Mathlib.Data.List.Forall2
import Mathlib.Data.Nat.Digits.Defs
import Mathlib.Tactic.Ring
import SaveRam.Text.Hex
import SaveRam.Text.Numeral

/-!
# How numbers are written

`Numeral.Writes n cs` says that the text `cs` is a way to write the integer
`n`: an optional sign, and behind it one or more hexadecimal digits after `0x`
or `0X`, any octal digits after a `0`, or decimal digits that do not begin with
`0`.  The relation does not bound the number.  A digit is what `Hex.digit`
writes, with letters of either case, and digits are worth `Nat.ofDigits`.

Such texts are read back in two steps.

* Digits.  `Numeral.digit?_eq_some_iff` and `Numeral.digits?_eq_some_iff` say
  which digits are read and what they are worth.
* Numbers.  `Numeral.body?_of_unsigned` reads what stands behind a sign, and
  `Numeral.parse?_of_writes` a whole numeral: the number is read when its
  magnitude is below `2 ^ 63`, and nothing is read otherwise.
-/

namespace SaveRam.Numeral

/-! ## Written forms -/

/-- The digit of the value `d` in a base. -/
def Digit (base d : Nat) (c : Char) : Prop :=
  d < base ∧ (c = Hex.digit 'a' d ∨ c = Hex.digit 'A' d)

/-- Digits that are worth `n`, most significant first.  Zeros may lead. -/
def Digits (base n : Nat) (cs : List Char) : Prop :=
  ∃ ds : List Nat, List.Forall₂ (Digit base) ds cs ∧ n = Nat.ofDigits base ds.reverse

/-- The ways to write a natural number. -/
inductive Unsigned : Nat → List Char → Prop where
  | hex {n : Nat} {x : Char} {cs : List Char} (hx : x = 'x' ∨ x = 'X') (hne : cs ≠ [])
      (hdigits : Digits 16 n cs) : Unsigned n ('0' :: x :: cs)
  /-- This is also how zero is written in decimal. -/
  | octal {n : Nat} {cs : List Char} (hdigits : Digits 8 n cs) : Unsigned n ('0' :: cs)
  | decimal {n : Nat} {c : Char} {cs : List Char} (hc : c ≠ '0')
      (hdigits : Digits 10 n (c :: cs)) : Unsigned n (c :: cs)

/-- The ways to write an integer. -/
inductive Writes : Int → List Char → Prop where
  | bare {n : Nat} {cs : List Char} (h : Unsigned n cs) : Writes n cs
  | plus {n : Nat} {cs : List Char} (h : Unsigned n cs) : Writes n ('+' :: cs)
  | minus {n : Nat} {cs : List Char} (h : Unsigned n cs) : Writes (-n) ('-' :: cs)

/-! ## Digits -/

theorem digit_decimal {c : Char} (letterA : Char) (h : '0' ≤ c ∧ c ≤ '9') :
    Hex.digit letterA (c.toNat - '0'.toNat) = c := by
  have hlow : '0'.toNat ≤ c.toNat := h.1
  have hhigh : c.toNat ≤ '9'.toNat := h.2
  have hvalue : c.toNat - '0'.toNat < 10 := by
    have hnine : '9'.toNat = '0'.toNat + 9 := rfl
    omega
  rw [Hex.digit, if_pos hvalue, Nat.add_sub_cancel' hlow, Char.ofNat_toNat]

theorem digit_letter {letterA c : Char} (h : letterA ≤ c) :
    Hex.digit letterA (c.toNat - letterA.toNat + 10) = c := by
  have hlow : letterA.toNat ≤ c.toNat := h
  have hvalue : ¬ c.toNat - letterA.toNat + 10 < 10 := by omega
  rw [Hex.digit, if_neg hvalue, Nat.add_sub_cancel, Nat.add_sub_cancel' hlow, Char.ofNat_toNat]

theorem digit?_of_digit {base d : Nat} {c : Char} (hbase : base ≤ 16) (h : Digit base d c) :
    digit? base c = some d := by
  obtain ⟨hd, hc⟩ := h
  -- The value of a character does not depend on the base, only whether it counts.
  have hwidest : digit? 16 c = some d := by
    have hboth : ∀ d : Fin 16, digit? 16 (Hex.digit 'a' d) = some d.val ∧
        digit? 16 (Hex.digit 'A' d) = some d.val := by decide
    rcases hc with rfl | rfl
    · exact (hboth ⟨d, by omega⟩).1
    · exact (hboth ⟨d, by omega⟩).2
  unfold digit? at hwidest ⊢
  grind

/-- A character is read as a digit exactly when it is the digit of its value. -/
theorem digit?_eq_some_iff {base d : Nat} {c : Char} (hbase : base ≤ 16) :
    digit? base c = some d ↔ Digit base d c := by
  constructor
  · intro h
    unfold digit? at h
    obtain ⟨hlt, hd⟩ := Option.ite_none_right_eq_some.1 h
    rw [← Option.some.inj hd]
    refine ⟨hlt, ?_⟩
    split_ifs at hlt ⊢ with hdecimal hlower hupper
    · exact .inl (digit_decimal 'a' hdecimal).symm
    · exact .inl (digit_letter hlower.1).symm
    · exact .inr (digit_letter hupper.1).symm
    · omega
  · exact digit?_of_digit hbase

/-- Digits behind others that are worth `acc`. -/
theorem digitsFrom?_eq_some_iff {base acc n : Nat} {cs : List Char} (hbase : base ≤ 16) :
    digitsFrom? base acc cs = some n ↔
      ∃ ds, List.Forall₂ (Digit base) ds cs ∧
        n = acc * base ^ ds.length + Nat.ofDigits base ds.reverse := by
  induction cs generalizing acc with
  | nil => simp [digitsFrom?, List.forall₂_nil_right_iff, eq_comm]
  | cons c cs ih =>
    have hshift : ∀ (d : Nat) (ds : List Nat),
        acc * base ^ (d :: ds).length + Nat.ofDigits base (d :: ds).reverse =
          (acc * base + d) * base ^ ds.length + Nat.ofDigits base ds.reverse := by
      intro d ds
      rw [List.reverse_cons, Nat.ofDigits_append, Nat.ofDigits_singleton, List.length_reverse,
        List.length_cons]
      ring
    rw [digitsFrom?]
    constructor
    · intro h
      split at h
      · rename_i d hd
        obtain ⟨ds, hds, rfl⟩ := ih.1 h
        exact ⟨d :: ds, .cons ((digit?_eq_some_iff hbase).1 hd) hds, (hshift d ds).symm⟩
      · cases h
    · rintro ⟨ds, hds, rfl⟩
      cases hds with
      | cons hd hds =>
        rename_i d ds
        rw [digit?_of_digit hbase hd]
        exact ih.2 ⟨ds, hds, hshift d ds⟩

/-- A text is read as digits exactly when it consists of digits, and at least
of one. -/
theorem digits?_eq_some_iff {base n : Nat} {cs : List Char} (hbase : base ≤ 16) :
    digits? base cs = some n ↔ cs ≠ [] ∧ Digits base n cs := by
  unfold digits? Digits
  cases cs with
  | nil => simp
  | cons c cs => simp [digitsFrom?_eq_some_iff hbase]

theorem isDigit_iff {base : Nat} {c : Char} (hbase : base ≤ 16) :
    isDigit base c ↔ ∃ d, Digit base d c := by
  simp only [isDigit, Option.isSome_iff_exists, digit?_eq_some_iff hbase]

/-- A text is worth something in a base exactly when all its characters are
digits. -/
theorem exists_digits_iff {base : Nat} {cs : List Char} (hbase : base ≤ 16) :
    (∃ n, Digits base n cs) ↔ ∀ c ∈ cs, isDigit base c := by
  constructor
  · rintro ⟨n, ds, hds, -⟩ c hc
    induction hds with
    | nil => cases hc
    | cons hd _ ih =>
      cases hc with
      | head => exact (isDigit_iff hbase).2 ⟨_, hd⟩
      | tail _ hc => exact ih hc
  · intro h
    induction cs with
    | nil => exact ⟨0, [], .nil, rfl⟩
    | cons c cs ih =>
      obtain ⟨d, hd⟩ := (isDigit_iff hbase).1 (h c List.mem_cons_self)
      obtain ⟨_, ds, hds, -⟩ := ih fun c hc => h c (List.mem_cons_of_mem _ hc)
      exact ⟨_, d :: ds, .cons hd hds, rfl⟩

theorem Digits.isDigit {base n : Nat} {cs : List Char} (h : Digits base n cs)
    (hbase : base ≤ 16) {c : Char} (hc : c ∈ cs) : isDigit base c :=
  (exists_digits_iff hbase).1 ⟨n, h⟩ c hc

/-- The bases are nested, so that what is no digit in base sixteen is none at
all. -/
theorem isDigit_widest {base : Nat} {c : Char} (hbase : base ≤ 16) (h : isDigit base c) :
    isDigit 16 c := by
  obtain ⟨d, hd, hc⟩ := (isDigit_iff hbase).1 h
  exact (isDigit_iff (Nat.le_refl 16)).2 ⟨d, by omega, hc⟩

theorem ne_of_isDigit {base : Nat} {c x : Char} (hbase : base ≤ 16) (h : isDigit base c)
    (hx : isDigit 16 x = false) : c ≠ x := by
  rintro rfl
  have hc := isDigit_widest hbase h
  rw [hx] at hc
  cases hc

/-! ## Numbers -/

/-- The range of a 64-bit number. -/
theorem fit?_eq_ite (i : Int) :
    fit? i = if -2 ^ 63 ≤ i ∧ i < 2 ^ 63 then some (Int64.ofInt i) else none := by
  have hmin : Int64.minValue.toInt = -2 ^ 63 := by decide
  have hmax : Int64.maxValue.toInt = 2 ^ 63 - 1 := by decide
  unfold fit?
  rw [hmin, hmax]
  exact if_congr (by omega) rfl rfl

/-- The range of a number without a sign. -/
theorem fit?_natCast (n : Nat) :
    fit? n = if n < 2 ^ 63 then some (Int64.ofInt n) else none := by
  rw [fit?_eq_ite]
  exact if_congr (by omega) rfl rfl

/-- Digits without a sign of their own are read as what they are worth. -/
theorem signed?_of_digits {base n : Nat} {cs : List Char} (hbase : base ≤ 16) (hne : cs ≠ [])
    (h : Digits base n cs) : signed? base cs = fit? n := by
  have hvalue : digits? base cs = some n := (digits?_eq_some_iff hbase).2 ⟨hne, h⟩
  unfold signed?
  split
  · have hminus := h.isDigit hbase List.mem_cons_self
    exact absurd rfl (ne_of_isDigit hbase hminus (by decide : isDigit 16 '-' = false))
  · have hplus := h.isDigit hbase List.mem_cons_self
    exact absurd rfl (ne_of_isDigit hbase hplus (by decide : isDigit 16 '+' = false))
  · rw [hvalue, Option.bind_some]

theorem body?_octal {c : Char} (hx : c ≠ 'x') (hX : c ≠ 'X') (cs : List Char) :
    body? ('0' :: c :: cs) = signed? 8 (c :: cs) := by
  rw [body?]
  · exact hx
  · exact hX

/-- What begins with no zero is read in base ten, and so is a lone zero. -/
theorem body?_decimal {cs : List Char} (h : cs.head? = some '0' → cs = ['0']) :
    body? cs = signed? 10 cs := by
  fun_cases body? cs with
  | case1 | case2 | case3 => cases h rfl
  | case4 => rfl

/-- Each notation is told by its first characters. -/
theorem body?_of_unsigned {n : Nat} {cs : List Char} (h : Unsigned n cs) : body? cs = fit? n := by
  cases h with
  | hex hx hne hdigits =>
    rcases hx with rfl | rfl
    · exact signed?_of_digits (by omega) hne hdigits
    · exact signed?_of_digits (by omega) hne hdigits
  | @octal cs hdigits =>
    cases cs with
    | nil =>
      -- A lone zero is read in base ten.
      obtain ⟨ds, hds, rfl⟩ := hdigits
      cases hds
      rfl
    | cons c cs =>
      have hc := hdigits.isDigit (by omega) List.mem_cons_self
      have hx := ne_of_isDigit (by omega) hc (by decide : isDigit 16 'x' = false)
      have hX := ne_of_isDigit (by omega) hc (by decide : isDigit 16 'X' = false)
      rw [body?_octal hx hX, signed?_of_digits (by omega) (List.cons_ne_nil c cs) hdigits]
  | @decimal c cs hc hdigits =>
    have hhead : (c :: cs).head? ≠ some '0' := by simpa using hc
    rw [body?_decimal fun h => absurd h hhead,
      signed?_of_digits (by omega) (List.cons_ne_nil c cs) hdigits]

theorem Unsigned.exists_cons {n : Nat} {cs : List Char} (h : Unsigned n cs) :
    ∃ c rest, cs = c :: rest ∧ isDigit 10 c := by
  cases h with
  | hex | octal => exact ⟨_, _, rfl, by decide⟩
  | decimal _ hdigits => exact ⟨_, _, rfl, hdigits.isDigit (by omega) List.mem_cons_self⟩

theorem Writes.ne_nil {n : Int} {cs : List Char} (h : Writes n cs) : cs ≠ [] := by
  cases h with
  | plus | minus => exact List.cons_ne_nil _ _
  | bare h =>
    obtain ⟨c, rest, rfl, -⟩ := h.exists_cons
    exact List.cons_ne_nil c rest

/-- A numeral is read as its number when the magnitude has 63 bits at most,
whatever the sign. -/
theorem parse?_of_writes {n : Int} {cs : List Char} (h : Writes n cs) :
    parse? cs = if n.natAbs < 2 ^ 63 then some (Int64.ofInt n) else none := by
  cases h with
  | @bare n cs h =>
    rw [Int.natAbs_natCast, ← fit?_natCast, ← body?_of_unsigned h]
    obtain ⟨c, cs, rfl, hc⟩ := h.exists_cons
    have hminus := ne_of_isDigit (by omega) hc (by decide : isDigit 16 '-' = false)
    have hplus := ne_of_isDigit (by omega) hc (by decide : isDigit 16 '+' = false)
    rw [parse?] <;> simp [hminus, hplus]
  | plus h =>
    rw [Int.natAbs_natCast, ← fit?_natCast, ← body?_of_unsigned h]
    rfl
  | @minus n cs h =>
    rw [parse?, body?_of_unsigned h, fit?_natCast, Int.natAbs_neg, Int.natAbs_natCast]
    split_ifs
    · rw [Option.map_some, Int64.neg_ofInt]
    · rfl

/-- Every numeral of a 64-bit number but the least is read. -/
theorem parse?_of_writes_toInt {v : Int64} {cs : List Char} (h : Writes v.toInt cs)
    (hv : v ≠ Int64.minValue) : parse? cs = some v := by
  have hlow := v.le_toInt
  have hhigh := v.toInt_lt
  have hne : v.toInt ≠ -2 ^ 63 := fun h => hv (Int64.toInt_inj.1 h)
  rw [parse?_of_writes h, if_pos (by omega), Int64.ofInt_toInt]

end SaveRam.Numeral
