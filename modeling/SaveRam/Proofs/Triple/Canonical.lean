import SaveRam.Proofs.Triple.WellFormed

/-!
# Canonical triples

Many triples stand for the same instruction: parameters count by their low bits, and
some do not count at all.  `Triple.StandsFor` says which instruction a triple stands
for, field by field and in terms of its signed numbers, and `Triple.decode_eq_ok_iff`
that decoding finds this instruction and no other one.

Among the triples of an instruction there is one without superfluous bits.
`Triple.reencode` goes to it, and `Triple.Canonical` says which triples it leaves as
they are.  Both sides are compared parameter by parameter: the lemmas of the first
section tell when a parameter is written back as it was read.
-/

namespace SaveRam

/-! ## Parameters -/

namespace Instruction

theorem toInt_addressParam (a : Address) : (addressParam a).toInt = a.toNat := by
  have ha : a.toNat < 2 ^ 16 := a.toNat_lt
  rw [← Int64.toInt_toBitVec, BitVec.toInt_eq_toNat_cond]
  simp [addressParam]
  omega

theorem toInt_byteParam (b : UInt8) : (byteParam b).toInt = b.toNat := by
  have hb : b.toNat < 2 ^ 8 := b.toNat_lt
  rw [← Int64.toInt_toBitVec, BitVec.toInt_eq_toNat_cond]
  simp [byteParam]
  omega

end Instruction

open Instruction (addressParam byteParam toInt_addressParam toInt_byteParam)

namespace Triple

/-- The low eight bits of a parameter, negative ones included. -/
theorem toNat_lowByte (param : Int64) : ((lowByte param).toNat : Int) = param.toInt % 0x100 := by
  have hword := toNat_lowWord param
  have hbyte : (lowByte param).toNat = (lowWord param).toNat % 0x100 := by
    simp [lowByte, lowWord]
  omega

theorem lowWord_eq_iff {param : Int64} {a : Address} :
    lowWord param = a ↔ (a.toNat : Int) = param.toInt % 0x10000 := by
  rw [← toNat_lowWord, Int.natCast_inj, UInt16.toNat_inj, eq_comm]

theorem lowByte_eq_iff {param : Int64} {b : UInt8} :
    lowByte param = b ↔ (b.toNat : Int) = param.toInt % 0x100 := by
  rw [← toNat_lowByte, Int.natCast_inj, UInt8.toNat_inj, eq_comm]

/-- A flag is set when the low byte is not zero. -/
theorem flag_iff {param : Int64} : (lowByte param != 0) ↔ param.toInt % 0x100 ≠ 0 := by
  rw [bne_iff_ne, ne_eq, lowByte_eq_iff, eq_comm]
  rfl

/-- An address is written back as it was read if it was in range. -/
theorem addressParam_lowWord_eq_iff {param : Int64} :
    addressParam (lowWord param) = param ↔ 0 ≤ param.toInt ∧ param.toInt ≤ 0xFFFF := by
  rw [← Int64.toInt_inj, toInt_addressParam, toNat_lowWord]
  omega

theorem byteParam_lowByte_eq_iff {param : Int64} :
    byteParam (lowByte param) = param ↔ 0 ≤ param.toInt ∧ param.toInt ≤ 0xFF := by
  rw [← Int64.toInt_inj, toInt_byteParam, toNat_lowByte]
  omega

/-- A flag is written back as it was read if it was zero or one. -/
theorem flagParam_eq_iff {param : Int64} :
    (if lowByte param != 0 then 1 else 0) = param ↔ param = 0 ∨ param = 1 := by
  constructor
  · split
    · exact fun h => .inr h.symm
    · exact fun h => .inl h.symm
  · rintro (rfl | rfl) <;> rfl

end Triple

/-! ## What a triple stands for -/

namespace Instruction

variable {Loc : Type}

/-- The byte or the mask of an instruction. -/
def byte? : Instruction Loc → Option UInt8
  | .fill _ byte => some byte
  | .bitset _ mask => some mask
  | _ => none

/-- The flag of an instruction. -/
def flag? : Instruction Loc → Option Bool
  | .diff _ inverted => some inverted
  | _ => none

end Instruction

namespace Triple

/-- The operation of the instruction has the number of the triple, and its operands are
the low bits of the parameters. -/
structure StandsFor (t : Triple) (i : Instruction Address) : Prop where
  opcode : t.opcode.toInt = i.opcode.number.toNat
  destination : ∀ a ∈ i.destination?, (a.toNat : Int) = t.param1.toInt % 0x10000
  source : ∀ a ∈ i.source?, (a.toNat : Int) = t.param2.toInt % 0x10000
  byte : ∀ b ∈ i.byte?, (b.toNat : Int) = t.param2.toInt % 0x100
  flag : ∀ f ∈ i.flag?, f ↔ t.param2.toInt % 0x100 ≠ 0

/-- A triple is decoded into the one instruction that it stands for. -/
theorem decode_eq_ok_iff {t : Triple} {i : Instruction Address} :
    t.decode = .ok i ↔ t.StandsFor i := by
  constructor
  · intro h
    unfold decode at h
    cases hop : Opcode.ofNumber? t.opcode.toInt with
    | none =>
      rw [hop] at h
      cases h
    | some o =>
      have hnumber := Opcode.eq_number_of_ofNumber? hop
      rw [hop] at h
      -- The operation fixes which parameters are read, and how.
      cases o <;> cases h
      all_goals
        refine ⟨hnumber, ?_, ?_, ?_, ?_⟩ <;>
          simp [Instruction.destination?, Instruction.source?, Instruction.byte?,
            Instruction.flag?, toNat_lowWord, toNat_lowByte, flag_iff, -bne_iff_ne]
  · rintro ⟨hopcode, hdst, hsrc, hbyte, hflag⟩
    have hop : Opcode.ofNumber? t.opcode.toInt = some i.opcode := by
      rw [hopcode, Opcode.ofNumber?_number]
    unfold decode
    rw [hop]
    cases i with
    | init | reset => rfl
    | swap dst | reverse dst =>
      have ha := lowWord_eq_iff.2 (hdst dst rfl)
      simp only [Instruction.opcode, ha]
    | fill dst byte | bitset dst byte =>
      have ha := lowWord_eq_iff.2 (hdst dst rfl)
      have hb := lowByte_eq_iff.2 (hbyte byte rfl)
      simp only [Instruction.opcode, ha, hb]
    | xor dst src | copy dst src =>
      have ha := lowWord_eq_iff.2 (hdst dst rfl)
      have hb := lowWord_eq_iff.2 (hsrc src rfl)
      simp only [Instruction.opcode, ha, hb]
    | diff dst inverted =>
      have ha := lowWord_eq_iff.2 (hdst dst rfl)
      have hf : (lowByte t.param2 != 0) = inverted :=
        Bool.eq_iff_iff.2 (flag_iff.trans (hflag inverted rfl).symm)
      simp only [Instruction.opcode, ha, hf]

/-- A negative address, and a flag whose low byte is zero. -/
example : decode ⟨3, -0x6000, 0x100⟩ = .ok (.diff 0xA000 false) := rfl

/-- Exactly the triples with an operation of their own are decoded. -/
theorem exists_decode_iff {t : Triple} :
    (∃ i, t.decode = .ok i) ↔ 0 ≤ t.opcode.toInt ∧ t.opcode.toInt ≤ 8 := by
  constructor
  · rintro ⟨i, hi⟩
    refine Decidable.byContradiction fun hunknown => ?_
    rw [decode_of_unknown hunknown] at hi
    cases hi
  · intro hknown
    obtain ⟨i, hi, -⟩ := decode_of_known hknown
    exact ⟨i, hi⟩

/-- A triple that is not decoded is refused with its number. -/
theorem decode_eq_error_iff {t : Triple} {e : UnknownOpcode} :
    t.decode = .error e ↔ ¬ (0 ≤ t.opcode.toInt ∧ t.opcode.toInt ≤ 8) ∧ e = ⟨t.opcode⟩ := by
  constructor
  · intro h
    have hunknown : ¬ (0 ≤ t.opcode.toInt ∧ t.opcode.toInt ≤ 8) := by
      rw [← exists_decode_iff, h]
      nofun
    rw [decode_of_unknown hunknown] at h
    exact ⟨hunknown, (Except.error.inj h).symm⟩
  · rintro ⟨hunknown, rfl⟩
    exact decode_of_unknown hunknown

/-! ## The canonical form -/

/-- The canonical triple of the instruction that a triple stands for. -/
def reencode (t : Triple) : Except UnknownOpcode Triple := t.decode.map Instruction.encode

/-- Parameters that the operation does not use are zero, and those that it uses have no
bits that it does not look at. -/
structure Canonical (t : Triple) : Prop where
  known : 0 ≤ t.opcode.toInt ∧ t.opcode.toInt ≤ 8
  unused1 : t.opcode.toInt = 0 ∨ t.opcode.toInt = 8 → t.param1 = 0
  address1 : 1 ≤ t.opcode.toInt ∧ t.opcode.toInt ≤ 7 →
    0 ≤ t.param1.toInt ∧ t.param1.toInt ≤ 0xFFFF
  unused2 : t.opcode.toInt = 0 ∨ t.opcode.toInt = 2 ∨ t.opcode.toInt = 4 ∨ t.opcode.toInt = 8 →
    t.param2 = 0
  address2 : t.opcode.toInt = 5 ∨ t.opcode.toInt = 6 →
    0 ≤ t.param2.toInt ∧ t.param2.toInt ≤ 0xFFFF
  byte : t.opcode.toInt = 1 ∨ t.opcode.toInt = 7 → 0 ≤ t.param2.toInt ∧ t.param2.toInt ≤ 0xFF
  flag : t.opcode.toInt = 3 → t.param2 = 0 ∨ t.param2 = 1

theorem reencode_of_ok {t : Triple} {i : Instruction Address} (h : t.decode = .ok i) :
    t.reencode = .ok i.encode := by
  rw [reencode, h]
  rfl

theorem reencode_of_error {t : Triple} {e : UnknownOpcode} (h : t.decode = .error e) :
    t.reencode = .error e := by
  rw [reencode, h]
  rfl

theorem encode_inj {i j : Instruction Address} : i.encode = j.encode ↔ i = j := by
  constructor
  · intro h
    have hdecode := i.decode_encode
    rw [h, j.decode_encode] at hdecode
    exact (Except.ok.inj hdecode).symm
  · rintro rfl
    rfl

/-- Triples are read alike exactly if they have the same canonical form, or are refused
with the same number. -/
theorem decode_eq_iff {t u : Triple} : t.decode = u.decode ↔ t.reencode = u.reencode := by
  constructor
  · intro h
    rw [reencode, reencode, h]
  · intro h
    cases ht : t.decode <;> cases hu : u.decode <;>
      simp_all [reencode, Except.map, encode_inj]

theorem reencode_reencode (t : Triple) : t.reencode.bind reencode = t.reencode := by
  cases h : t.decode with
  | error e =>
    rw [reencode_of_error h]
    rfl
  | ok i =>
    rw [reencode_of_ok h]
    exact reencode_of_ok i.decode_encode

theorem canonical_iff (t : Triple) :
    t.Canonical ↔
      (0 ≤ t.opcode.toInt ∧ t.opcode.toInt ≤ 8) ∧
      (t.opcode.toInt = 0 ∨ t.opcode.toInt = 8 → t.param1 = 0) ∧
      (1 ≤ t.opcode.toInt ∧ t.opcode.toInt ≤ 7 →
        0 ≤ t.param1.toInt ∧ t.param1.toInt ≤ 0xFFFF) ∧
      (t.opcode.toInt = 0 ∨ t.opcode.toInt = 2 ∨ t.opcode.toInt = 4 ∨ t.opcode.toInt = 8 →
        t.param2 = 0) ∧
      (t.opcode.toInt = 5 ∨ t.opcode.toInt = 6 →
        0 ≤ t.param2.toInt ∧ t.param2.toInt ≤ 0xFFFF) ∧
      (t.opcode.toInt = 1 ∨ t.opcode.toInt = 7 →
        0 ≤ t.param2.toInt ∧ t.param2.toInt ≤ 0xFF) ∧
      (t.opcode.toInt = 3 → t.param2 = 0 ∨ t.param2 = 1) :=
  ⟨fun ⟨h, h1, h2, h3, h4, h5, h6⟩ => ⟨h, h1, h2, h3, h4, h5, h6⟩,
    fun ⟨h, h1, h2, h3, h4, h5, h6⟩ => ⟨h, h1, h2, h3, h4, h5, h6⟩⟩

instance (t : Triple) : Decidable t.Canonical := decidable_of_iff _ (canonical_iff t).symm

theorem mk_eq_iff {opcode param1 param2 : Int64} {t : Triple} :
    (⟨opcode, param1, param2⟩ : Triple) = t ↔
      opcode = t.opcode ∧ param1 = t.param1 ∧ param2 = t.param2 := by
  cases t
  simp

/-- Exactly the canonical triples are their own canonical form. -/
theorem reencode_eq_self_iff {t : Triple} : t.reencode = .ok t ↔ t.Canonical := by
  cases hop : Opcode.ofNumber? t.opcode.toInt with
  | none =>
    have hunknown := Opcode.ofNumber?_eq_none_iff.1 hop
    rw [reencode_of_error (decode_of_unknown hunknown)]
    exact iff_of_false nofun fun h => hunknown h.known
  | some o =>
    have hnumber := Opcode.eq_number_of_ofNumber? hop
    have hopcode : byteParam o.number = t.opcode := by
      rw [← Int64.toInt_inj, toInt_byteParam, hnumber]
    rw [canonical_iff]
    unfold reencode decode
    rw [hop, hnumber]
    -- For each operation its parameters are compared one by one.
    cases o <;>
      simp only [Except.map, Instruction.encode, Instruction.opcode, hopcode, Except.ok.injEq,
        mk_eq_iff, true_and, addressParam_lowWord_eq_iff, byteParam_lowByte_eq_iff,
        flagParam_eq_iff]
    all_goals simp [Opcode.number, eq_comm]

/-- Every instruction is read back from its canonical triple.  A triple is decoded exactly
if its number is one of 0 to 8, and else refused with its number; it is decoded into the
instruction that it stands for.  Triples are decoded alike exactly if their canonical
forms are the same, the canonical form of the canonical form is itself, and exactly the
canonical triples are left as they are. -/
theorem decode_up_to_canonical :
    (∀ i : Instruction Address, i.encode.decode = .ok i) ∧
    ∀ t : Triple,
      ((∃ i, t.decode = .ok i) ↔ 0 ≤ t.opcode.toInt ∧ t.opcode.toInt ≤ 8) ∧
      (∀ e, t.decode = .error e ↔
        ¬ (0 ≤ t.opcode.toInt ∧ t.opcode.toInt ≤ 8) ∧ e = ⟨t.opcode⟩) ∧
      (∀ i, t.decode = .ok i ↔ t.StandsFor i) ∧
      (∀ u : Triple, t.decode = u.decode ↔ t.reencode = u.reencode) ∧
      t.reencode.bind reencode = t.reencode ∧
      (t.reencode = .ok t ↔ t.Canonical) :=
  ⟨Instruction.decode_encode, fun _ => ⟨exists_decode_iff, fun _ => decode_eq_error_iff,
    fun _ => decode_eq_ok_iff, fun _ => decode_eq_iff, reencode_reencode _, reencode_eq_self_iff⟩⟩

end Triple

end SaveRam
