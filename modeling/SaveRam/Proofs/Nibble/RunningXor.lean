import Mathlib.Data.Set.Function
import SaveRam.DiffCode

/-!
# The differential code as a running exclusive or

The code table hides a simple law.  The code of a nibble is the running exclusive or
over its bits (`runningXor`), which goes on from one bit of the nibble coded before
it; in the inverted direction the bits come out in reverse.
`DiffCode.row_eq_runningXor` reads this off the table, and `DiffCode.bitCoder` is the
code written in this way.

A running exclusive or is undone by taking the differences of neighbouring bits
(`bitDifferences`), so the code of a nibble is a bijection, and with it the code of a
byte (`DiffCode.byte_bijective`).

The rest carries this from one byte to sequences of bytes that come each with a
direction of their own.  `Coder.run` codes a sequence, and the state it hands on is
the carried nibble.  There is one induction for each fact: the comparison with the
code by bits (`DiffCode.run_bitCoder`), the nibble at the end
(`DiffCode.carried_run`), the reflection of the directions (`DiffCode.run_true`), and
the bijection (`DiffCode.run_injective`, `DiffCode.exists_run_eq`).
`DiffCode.run_runningXor` is the law as a whole.
-/

namespace SaveRam

/-! ## Coders -/

/-- A step that turns a symbol into its code and hands a state on. -/
abbrev Coder (σ α β : Type) := σ → α → β × σ

namespace Coder

variable {σ α β : Type}

/-- The codes of symbols, one after the other, and the state after the last one. -/
def run (step : Coder σ α β) : σ → List α → List β × σ
  | s, [] => ([], s)
  | s, x :: xs =>
    match step s x with
    | (y, s) =>
      match run step s xs with
      | (ys, s) => (y :: ys, s)

variable (step : Coder σ α β)

@[simp] theorem run_nil (s : σ) : step.run s [] = ([], s) := rfl

@[simp] theorem run_cons (s : σ) (x : α) (xs : List α) :
    step.run s (x :: xs) =
      ((step s x).1 :: (step.run (step s x).2 xs).1, (step.run (step s x).2 xs).2) := rfl

theorem length_run (s : σ) (xs : List α) : (step.run s xs).1.length = xs.length := by
  induction xs generalizing s with
  | nil => rfl
  | cons x xs ih => rw [run_cons, List.length_cons, List.length_cons, ih]

end Coder

/-! ## The bits of a nibble -/

/-- The running exclusive or over the bits of a nibble, from the highest bit down:
each bit is combined with the one that came out before it, the highest one with
the given bit. -/
def runningXor (carry : Bool) (x : Nibble) : Nibble :=
  let r3 := x.getLsbD 3 ^^ carry
  let r2 := x.getLsbD 2 ^^ r3
  let r1 := x.getLsbD 1 ^^ r2
  let r0 := x.getLsbD 0 ^^ r1
  .ofBoolListBE [r3, r2, r1, r0]

/-- The differences of neighbouring bits, from the highest bit down. -/
def bitDifferences (carry : Bool) (r : Nibble) : Nibble :=
  .ofBoolListBE [r.getLsbD 3 ^^ carry, r.getLsbD 2 ^^ r.getLsbD 3,
    r.getLsbD 1 ^^ r.getLsbD 2, r.getLsbD 0 ^^ r.getLsbD 1]

theorem bitDifferences_runningXor (carry : Bool) (x : Nibble) :
    bitDifferences carry (runningXor carry x) = x := by
  revert carry x
  decide

theorem runningXor_bitDifferences (carry : Bool) (r : Nibble) :
    runningXor carry (bitDifferences carry r) = r := by
  revert carry r
  decide

theorem runningXor_bijective (carry : Bool) : Function.Bijective (runningXor carry) :=
  Function.bijective_iff_has_inverse.2
    ⟨bitDifferences carry, bitDifferences_runningXor carry, runningXor_bitDifferences carry⟩

/-- The halves of a byte in the order in which they are coded. -/
def Nibble.halves (b : UInt8) : List Nibble := [Nibble.high b, Nibble.low b]

namespace DiffCode

/-! ## One nibble -/

/-- Each row of the code is a running exclusive or, and its reversal in the inverted
direction. -/
theorem row_eq_runningXor (inverted carry : Bool) (x : Nibble) :
    (row inverted carry).get x.toFin =
      if inverted then (runningXor carry x).reverse else runningXor carry x := by
  revert inverted carry x
  decide

/-- The code by bits.  The running exclusive or goes on from the lowest bit of the
carried nibble, or from its highest bit in the inverted direction, in which the bits
of the code are reversed. -/
def bitCoder : Coder Nibble (Bool × Nibble) Nibble := fun carried (inverted, x) =>
  let carry := if inverted then carried.getLsbD 3 else carried.getLsbD 0
  let code := if inverted then (runningXor carry x).reverse else runningXor carry x
  (code, code)

theorem bitCoder_eq (carried : Nibble) (inverted : Bool) (x : Nibble) :
    bitCoder carried (inverted, x) = (nibble inverted carried x, nibble inverted carried x) := by
  unfold bitCoder nibble
  rw [row_eq_runningXor]
  rfl

theorem nibble_bijective (inverted : Bool) (carried : Nibble) :
    Function.Bijective (nibble inverted carried) := by
  unfold nibble
  simp only [row_eq_runningXor]
  cases inverted with
  | false => exact runningXor_bijective _
  | true =>
    have hreverse : Function.Involutive (BitVec.reverse : Nibble → Nibble) :=
      fun x => BitVec.reverse_reverse_eq
    exact hreverse.bijective.comp (runningXor_bijective _)

/-- The directions are reflections of each other. -/
theorem nibble_true (carried x : Nibble) :
    nibble true carried x = (nibble false carried.reverse x).reverse := by
  have hcarry : carryBit true carried = carryBit false carried.reverse := by
    revert carried
    decide
  unfold nibble
  rw [row_eq_runningXor, row_eq_runningXor, hcarry]
  rfl

/-! ## One byte -/

theorem carried_byte (inverted : Bool) (carried : Nibble) (b : UInt8) :
    (byte inverted carried b).2 = Nibble.low (byte inverted carried b).1 := by
  simp [byte]

theorem byte_true (carried : Nibble) (b : UInt8) :
    byte true carried b =
      (reverseNibbles (byte false carried.reverse b).1,
        (byte false carried.reverse b).2.reverse) := by
  simp [byte, reverseNibbles, nibble_true, BitVec.reverse_reverse_eq]

theorem byte_bijective (inverted : Bool) (carried : Nibble) :
    Function.Bijective fun b => (byte inverted carried b).1 := by
  constructor
  · intro b b' hcode
    have hhigh : Nibble.high b = Nibble.high b' := by
      apply (nibble_bijective inverted carried).1
      simpa [byte] using congrArg Nibble.high hcode
    have hlow : Nibble.low b = Nibble.low b' := by
      apply (nibble_bijective inverted (nibble inverted carried (Nibble.high b))).1
      simpa [byte, hhigh] using congrArg Nibble.low hcode
    rw [← Nibble.join_high_low b, hhigh, hlow, Nibble.join_high_low]
  · intro code
    obtain ⟨hi, hhi⟩ := (nibble_bijective inverted carried).2 (Nibble.high code)
    obtain ⟨lo, hlo⟩ := (nibble_bijective inverted (Nibble.high code)).2 (Nibble.low code)
    refine ⟨Nibble.join hi lo, ?_⟩
    simp [byte, hhi, hlo]

/-- The halves of the code of a byte are the codes of its halves, and the second one
is carried on. -/
theorem halves_byte (inverted : Bool) (carried : Nibble) (b : UInt8) :
    Nibble.halves (byte inverted carried b).1 =
      [nibble inverted carried (Nibble.high b), (byte inverted carried b).2] := by
  simp [byte, Nibble.halves]

/-! ## Sequences of bytes -/

/-- The code of bytes that come each with a direction. -/
def byteCoder : Coder Nibble (Bool × UInt8) UInt8 := fun carried (inverted, b) =>
  byte inverted carried b

/-- The halves of bytes in order, each with the direction of its byte. -/
def nibblesOf (items : List (Bool × UInt8)) : List (Bool × Nibble) :=
  items.flatMap fun (inverted, b) => (Nibble.halves b).map fun x => (inverted, x)

/-- The code of bytes is the code of their halves by bits. -/
theorem run_bitCoder (carried : Nibble) (items : List (Bool × UInt8)) :
    bitCoder.run carried (nibblesOf items) =
      ((byteCoder.run carried items).1.flatMap Nibble.halves, (byteCoder.run carried items).2) := by
  induction items generalizing carried with
  | nil => rfl
  | cons item items ih =>
    obtain ⟨inverted, b⟩ := item
    have hitem : nibblesOf ((inverted, b) :: items) =
        (inverted, Nibble.high b) :: (inverted, Nibble.low b) :: nibblesOf items := rfl
    rw [hitem, Coder.run_cons, Coder.run_cons, Coder.run_cons, bitCoder_eq, bitCoder_eq,
      List.flatMap_cons]
    dsimp only [byteCoder]
    rw [ih, halves_byte]
    rfl

/-- The nibble that is carried at the end is the low half of the last code. -/
theorem carried_run (carried : Nibble) (items : List (Bool × UInt8)) :
    (byteCoder.run carried items).2 =
      ((byteCoder.run carried items).1.getLast?.map Nibble.low).getD carried := by
  induction items generalizing carried with
  | nil => rfl
  | cons item items ih =>
    obtain ⟨inverted, b⟩ := item
    rw [Coder.run_cons, List.getLast?_cons]
    dsimp only [byteCoder]
    rw [ih, carried_byte]
    cases (byteCoder.run _ items).1.getLast? <;> rfl

theorem run_true (carried : Nibble) (bs : List UInt8) :
    byteCoder.run carried (bs.map fun b => (true, b)) =
      ((byteCoder.run carried.reverse (bs.map fun b => (false, b))).1.map reverseNibbles,
        (byteCoder.run carried.reverse (bs.map fun b => (false, b))).2.reverse) := by
  induction bs generalizing carried with
  | nil => simp [BitVec.reverse_reverse_eq]
  | cons b bs ih =>
    have hstep : byteCoder carried (true, b) = _ := byte_true carried b
    rw [List.map_cons, List.map_cons, Coder.run_cons, Coder.run_cons, hstep, ih, List.map_cons,
      BitVec.reverse_reverse_eq]
    rfl

section Directions

variable (carried : Nibble) {directions : List Bool}

/-- For given directions the codes determine the bytes. -/
theorem run_injective {bs bs' : List UInt8} (hbs : bs.length = directions.length)
    (hbs' : bs'.length = directions.length)
    (h : (byteCoder.run carried (directions.zip bs)).1 =
      (byteCoder.run carried (directions.zip bs')).1) : bs = bs' := by
  induction directions generalizing carried bs bs' with
  | nil => rw [List.length_eq_zero_iff.1 hbs, List.length_eq_zero_iff.1 hbs']
  | cons inverted directions ih =>
    obtain ⟨b, bs, rfl⟩ := List.exists_cons_of_length_eq_add_one hbs
    obtain ⟨b', bs', rfl⟩ := List.exists_cons_of_length_eq_add_one hbs'
    rw [List.zip_cons_cons, List.zip_cons_cons, Coder.run_cons, Coder.run_cons] at h
    obtain ⟨hcode, hrest⟩ := List.cons.inj h
    -- Equal codes come from equal bytes, and so the same nibble is carried on.
    obtain rfl : b = b' := (byte_bijective inverted carried).1 hcode
    rw [ih _ (Nat.succ.inj hbs) (Nat.succ.inj hbs') hrest]

/-- Every sequence of the right length is the code of some bytes. -/
theorem exists_run_eq {codes : List UInt8} (h : codes.length = directions.length) :
    ∃ bs : List UInt8, bs.length = directions.length ∧
      (byteCoder.run carried (directions.zip bs)).1 = codes := by
  induction directions generalizing carried codes with
  | nil => exact ⟨[], rfl, (List.length_eq_zero_iff.1 h).symm⟩
  | cons inverted directions ih =>
    obtain ⟨code, codes, rfl⟩ := List.exists_cons_of_length_eq_add_one h
    obtain ⟨b, hb⟩ := (byte_bijective inverted carried).2 code
    obtain ⟨bs, hbs, hcodes⟩ := ih (byte inverted carried b).2 (Nat.succ.inj h)
    refine ⟨b :: bs, congrArg Nat.succ hbs, ?_⟩
    rw [List.zip_cons_cons, Coder.run_cons]
    exact congrArg₂ List.cons hb hcodes

end Directions

/-- The code of bytes, each with its direction, is the running exclusive or over the
bits of their halves.  The two directions are reflections of each other, the nibble
that is carried at the end is the low half of the last code, and for given
directions the code is a bijection on sequences of bytes. -/
theorem run_runningXor (carried : Nibble) :
    (∀ items : List (Bool × UInt8),
      bitCoder.run carried (nibblesOf items) =
          ((byteCoder.run carried items).1.flatMap Nibble.halves,
            (byteCoder.run carried items).2) ∧
        (byteCoder.run carried items).1.length = items.length ∧
        (byteCoder.run carried items).2 =
          ((byteCoder.run carried items).1.getLast?.map Nibble.low).getD carried) ∧
    (∀ bs : List UInt8,
      (byteCoder.run carried (bs.map fun b => (true, b))).1 =
        (byteCoder.run carried.reverse (bs.map fun b => (false, b))).1.map reverseNibbles) ∧
    ∀ directions : List Bool,
      Set.BijOn (fun bs => (byteCoder.run carried (directions.zip bs)).1)
        {bs | bs.length = directions.length} {codes | codes.length = directions.length} := by
  refine ⟨fun items => ⟨run_bitCoder carried items, Coder.length_run _ _ _, ?_⟩, fun bs => ?_,
    fun directions => ⟨fun bs hbs => ?_, fun bs hbs bs' hbs' => ?_, fun codes hcodes => ?_⟩⟩
  · exact carried_run carried items
  · rw [run_true]
  · have hlength : bs.length = directions.length := hbs
    show (byteCoder.run carried (directions.zip bs)).1.length = directions.length
    rw [Coder.length_run, List.length_zip, hlength, Nat.min_self]
  · exact run_injective carried hbs hbs'
  · exact exists_run_eq carried hcodes

end DiffCode

end SaveRam
