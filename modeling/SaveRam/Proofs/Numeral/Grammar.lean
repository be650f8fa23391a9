import SaveRam.Proofs.Numeral.Notation

/-!
# All texts that are read as numbers

`Numeral.Writes` gives the numerals, which have one sign at most.  Reading takes more
texts: digits may bring a second sign of their own, behind `0x`, behind the `0` of an
octal number and behind the first sign of a decimal number.  `Numeral.Signed` describes
digits with their sign and `Numeral.Body` what may stand behind the first sign.

* `Numeral.signed?_eq_some_iff` and `Numeral.body?_eq_some_iff`: a part of a text is read
  exactly if it has such a form, and a 64-bit number is its value.
* `Numeral.parse?_eq_some_iff`: a text is read exactly if it is a sign with such a part
  behind it.

Signs act on integers and on 64-bit numbers.  Both agree except for the least 64-bit
number, which has no opposite (`Numeral.Sign.toInt_apply`).
-/

namespace SaveRam.Numeral

/-! ## Signs -/

/-- What may stand in front of digits. -/
inductive Sign where
  | absent
  | plus
  | minus
deriving DecidableEq

namespace Sign

/-- How a sign is written. -/
def text : Sign → List Char
  | absent => []
  | plus => ['+']
  | minus => ['-']

/-- The number under a sign. -/
def apply {α : Type} [Neg α] : Sign → α → α
  | absent, x => x
  | plus, x => x
  | minus, x => -x

theorem toInt_apply {a : Sign} {v : Int64} (h : a = minus → v.toInt ≠ -2 ^ 63) :
    (a.apply v).toInt = a.apply v.toInt := by
  cases a with
  | absent | plus => rfl
  | minus =>
    have hne := h rfl
    have hlow := v.le_toInt
    have hhigh := v.toInt_lt
    show (-v).toInt = -v.toInt
    rw [← Int64.ofInt_toInt v, Int64.neg_ofInt, Int64.ofInt_toInt,
      Int64.toInt_ofInt_of_le (by omega) (by omega)]

end Sign

/-! ## Forms -/

/-- The sign `b` and one or more digits behind it, which are worth `i` together. -/
def Signed (base : Nat) (b : Sign) (i : Int) (cs : List Char) : Prop :=
  ∃ n ds, ds ≠ [] ∧ Digits base n ds ∧ cs = b.text ++ ds ∧ i = b.apply (n : Int)

/-- What is worth `i` behind a first sign `a`.  The digits may have a sign `b` of their own.
Decimal digits have one only behind a first sign, and without it they do not begin with
`0`, unless they are that digit alone. -/
inductive Body (a : Sign) : Int → List Char → Prop where
  | hex {b : Sign} {i : Int} {x : Char} {cs : List Char} (hx : x = 'x' ∨ x = 'X')
      (h : Signed 16 b i cs) : Body a i ('0' :: x :: cs)
  | octal {b : Sign} {i : Int} {cs : List Char} (h : Signed 8 b i cs) : Body a i ('0' :: cs)
  | decimal {b : Sign} {i : Int} {cs : List Char} (hb : b ≠ .absent → a ≠ .absent)
      (hzero : b = .absent → cs.head? = some '0' → cs = ['0']) (h : Signed 10 b i cs) :
      Body a i cs

/-- The text does not begin with a sign. -/
def Bare (cs : List Char) : Prop := cs.head? ≠ some '+' ∧ cs.head? ≠ some '-'

/-! ## Digits with a sign -/

section

variable {base : Nat} {b : Sign} {i : Int} {cs : List Char}

/-- The first character tells the sign. -/
theorem Signed.head?_cases (hbase : base ≤ 16) (h : Signed base b i cs) :
    (b = .absent ∧ ∃ c ∈ cs.head?, isDigit base c) ∨
      (b = .plus ∧ cs.head? = some '+') ∨ (b = .minus ∧ cs.head? = some '-') := by
  obtain ⟨n, ds, hne, hdigits, rfl, -⟩ := h
  cases b with
  | absent =>
    obtain ⟨c, ds, rfl⟩ := List.exists_cons_of_ne_nil hne
    exact .inl ⟨rfl, c, rfl, hdigits.isDigit hbase List.mem_cons_self⟩
  | plus => exact .inr (.inl ⟨rfl, rfl⟩)
  | minus => exact .inr (.inr ⟨rfl, rfl⟩)

/-- A character that is neither a sign nor a digit is not the first one. -/
theorem Signed.head?_ne (hbase : base ≤ 16) (h : Signed base b i cs) {x : Char}
    (hx : isDigit 16 x = false) (hplus : x ≠ '+') (hminus : x ≠ '-') : cs.head? ≠ some x := by
  intro hhead
  rcases h.head?_cases hbase with ⟨-, c, hc, hdigit⟩ | ⟨-, hc⟩ | ⟨-, hc⟩
  · rw [hhead, Option.mem_some_iff] at hc
    exact ne_of_isDigit hbase hdigit hx hc.symm
  · exact hplus (Option.some.inj (hhead.symm.trans hc))
  · exact hminus (Option.some.inj (hhead.symm.trans hc))

/-- A 64-bit number stands for an integer exactly if it has its value. -/
theorem fit?_eq_some_iff {v : Int64} : fit? i = some v ↔ v.toInt = i := by
  rw [fit?_eq_ite]
  constructor
  · intro h
    obtain ⟨⟨hlow, hhigh⟩, hv⟩ := Option.ite_none_right_eq_some.1 h
    rw [← Option.some.inj hv, Int64.toInt_ofInt_of_le hlow hhigh]
  · rintro rfl
    rw [if_pos ⟨v.le_toInt, v.toInt_lt⟩, Int64.ofInt_toInt]

/-- Reading digits and bringing their value into the range. -/
theorem bind_fit?_eq_some_iff (hbase : base ≤ 16) {v : Int64} {f : Nat → Int} :
    ((digits? base cs).bind fun n => fit? (f n)) = some v ↔
      ∃ n, cs ≠ [] ∧ Digits base n cs ∧ v.toInt = f n := by
  simp only [Option.bind_eq_some_iff, digits?_eq_some_iff hbase, fit?_eq_some_iff, and_assoc]

/-- Digits are read exactly if there are some, with or without a sign, and the value has
64 bits. -/
theorem signed?_eq_some_iff (hbase : base ≤ 16) {v : Int64} :
    signed? base cs = some v ↔ ∃ b, Signed base b v.toInt cs := by
  constructor
  · intro h
    unfold signed? at h
    split at h
    · obtain ⟨n, hne, hdigits, hv⟩ := (bind_fit?_eq_some_iff hbase).1 h
      exact ⟨.minus, n, _, hne, hdigits, rfl, hv⟩
    · obtain ⟨n, hne, hdigits, hv⟩ := (bind_fit?_eq_some_iff hbase).1 h
      exact ⟨.plus, n, _, hne, hdigits, rfl, hv⟩
    · obtain ⟨n, hne, hdigits, hv⟩ := (bind_fit?_eq_some_iff hbase).1 h
      exact ⟨.absent, n, _, hne, hdigits, rfl, hv⟩
  · rintro ⟨b, n, ds, hne, hdigits, rfl, hv⟩
    cases b with
    | absent =>
      show signed? base ds = some v
      rw [signed?_of_digits hbase hne hdigits, fit?_eq_some_iff]
      exact hv
    | plus => exact (bind_fit?_eq_some_iff hbase).2 ⟨n, hne, hdigits, hv⟩
    | minus => exact (bind_fit?_eq_some_iff hbase).2 ⟨n, hne, hdigits, hv⟩

end

/-! ## Behind the first sign -/

section

variable {a : Sign} {i : Int} {cs : List Char} {v : Int64}

/-- What has one of the forms is read, if its value has 64 bits. -/
theorem Body.read (h : Body a v.toInt cs) : body? cs = some v := by
  cases h with
  | hex hx h =>
    have hread := (signed?_eq_some_iff (Nat.le_refl 16)).2 ⟨_, h⟩
    rcases hx with rfl | rfl
    · exact hread
    · exact hread
  | @octal b _ cs h =>
    have hx := h.head?_ne (by omega) (by decide : isDigit 16 'x' = false) (by decide) (by decide)
    have hX := h.head?_ne (by omega) (by decide : isDigit 16 'X' = false) (by decide) (by decide)
    have hread := (signed?_eq_some_iff (by omega)).2 ⟨_, h⟩
    cases cs with
    | nil => cases hread
    | cons c cs =>
      rw [body?_octal (by simpa using hx) (by simpa using hX)]
      exact hread
  | @decimal b _ _ _ hzero h =>
    have hread := (signed?_eq_some_iff (by omega)).2 ⟨_, h⟩
    rw [body?_decimal, hread]
    intro hhead
    refine hzero ?_ hhead
    rcases h.head?_cases (by omega) with ⟨hb, -⟩ | ⟨-, hc⟩ | ⟨-, hc⟩
    · exact hb
    · cases hhead.symm.trans hc
    · cases hhead.symm.trans hc

/-- Nothing else is read.  Without a first sign, the text has to be one that does not
begin with a sign. -/
theorem body_of_read (ha : a = .absent → Bare cs) (h : body? cs = some v) :
    Body a v.toInt cs := by
  revert h ha
  fun_cases body? cs with
  | case1 cs =>
    intro _ h
    obtain ⟨b, hb⟩ := (signed?_eq_some_iff (Nat.le_refl 16)).1 h
    exact .hex (.inl rfl) hb
  | case2 cs =>
    intro _ h
    obtain ⟨b, hb⟩ := (signed?_eq_some_iff (Nat.le_refl 16)).1 h
    exact .hex (.inr rfl) hb
  | case3 c cs =>
    intro _ h
    obtain ⟨b, hb⟩ := (signed?_eq_some_iff (by omega)).1 h
    exact .octal hb
  | case4 cs hx hX hzero =>
    intro ha h
    obtain ⟨b, hb⟩ := (signed?_eq_some_iff (by omega)).1 h
    refine .decimal (fun hsign habsent => ?_) (fun _ hhead => ?_) hb
    · obtain ⟨hplus, hminus⟩ := ha habsent
      rcases hb.head?_cases (by omega) with ⟨hbare, -⟩ | ⟨-, hc⟩ | ⟨-, hc⟩
      · exact hsign hbare
      · exact hplus hc
      · exact hminus hc
    · -- Behind a zero, the cases before take up all texts but the empty one.
      obtain ⟨rest, rfl⟩ := List.head?_eq_some_iff.1 hhead
      cases rest with
      | nil => rfl
      | cons c rest => exact absurd rfl (hzero c rest)

/-- Behind a first sign, a text is read exactly if it has one of the forms and its value
has 64 bits. -/
theorem body?_eq_some_iff (ha : a ≠ .absent) : body? cs = some v ↔ Body a v.toInt cs :=
  ⟨body_of_read fun habsent => absurd habsent ha, Body.read⟩

/-- Where a first sign is absent, none is there. -/
theorem Body.bare (h : Body .absent i cs) : Bare cs := by
  cases h with
  | hex | octal => exact ⟨by simp, by simp⟩
  | @decimal b _ _ hb _ h =>
    obtain ⟨-, c, hc, hdigit⟩ | ⟨rfl, -⟩ | ⟨rfl, -⟩ := h.head?_cases (by omega)
    · have hplus := ne_of_isDigit (by omega) hdigit (by decide : isDigit 16 '+' = false)
      have hminus := ne_of_isDigit (by omega) hdigit (by decide : isDigit 16 '-' = false)
      rw [Option.mem_def] at hc
      exact ⟨by simpa [hc] using hplus, by simpa [hc] using hminus⟩
    · exact absurd rfl (hb (by decide))
    · exact absurd rfl (hb (by decide))

end

/-! ## Whole texts -/

/-- A text without a sign in front is read as if it stood behind one. -/
theorem parse?_of_bare {cs : List Char} (h : Bare cs) : parse? cs = body? cs := by
  obtain ⟨hplus, hminus⟩ := h
  fun_cases parse? cs with
  | case1 => exact absurd rfl hminus
  | case2 => exact absurd rfl hplus
  | case3 => rfl

/-- A text is read exactly if it is an optional sign with one of the forms behind it. -/
theorem parse?_eq_some_iff {cs : List Char} {v : Int64} :
    parse? cs = some v ↔
      ∃ (a : Sign) (w : Int64) (body : List Char),
        cs = a.text ++ body ∧ Body a w.toInt body ∧ v = a.apply w := by
  constructor
  · intro h
    revert h
    fun_cases parse? cs with
    | case1 cs =>
      intro h
      obtain ⟨w, hw, rfl⟩ := Option.map_eq_some_iff.1 h
      exact ⟨.minus, w, cs, rfl, body_of_read (by simp) hw, rfl⟩
    | case2 cs =>
      intro h
      exact ⟨.plus, v, cs, rfl, body_of_read (by simp) h, rfl⟩
    | case3 cs hminus hplus =>
      intro h
      have hbare : Bare cs := by
        constructor <;> intro hhead <;> obtain ⟨rest, rfl⟩ := List.head?_eq_some_iff.1 hhead
        · exact hplus rest rfl
        · exact hminus rest rfl
      exact ⟨.absent, v, cs, rfl, body_of_read (fun _ => hbare) h, rfl⟩
  · rintro ⟨a, w, body, rfl, hbody, rfl⟩
    cases a with
    | absent =>
      show parse? body = some w
      rw [parse?_of_bare hbody.bare, hbody.read]
    | plus => exact hbody.read
    | minus =>
      show (body? body).map (fun n => -n) = some (-w)
      rw [hbody.read, Option.map_some]

end SaveRam.Numeral
