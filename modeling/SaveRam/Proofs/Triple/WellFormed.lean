import SaveRam.Machine

/-!
# Well-formed triples

Whether a triple can be carried out is written in its three numbers.
`Triple.WellFormed` says when: the operation is known and every operand that
the operation uses as a place selects a cell.  `Triple.faultAt` is what a pass
reports about any other triple.

There are two groups.

* The operands.  `Triple.toNat_lowWord` gives the address in a parameter as a
  remainder of the signed number, and `Instruction.locate_lowWord` decides the
  look-up of such an address from the number alone.
* The triple as a whole.  `Triple.resolve` decodes a triple and looks its
  places up.  `Triple.resolve_cases` is the case analysis over the nine
  operations: either the triple is well-formed and has an instruction on
  cells, or it is not and the fault is `Triple.faultAt`.  Later proofs cite it
  and do not unfold `Triple.decode` or `Instruction.resolve`.
-/

namespace SaveRam

/-! ## The operands -/

/-- A parameter whose low sixteen bits are an address of the save memory. -/
def Triple.Maps (param : Int64) : Prop :=
  0xA000 ≤ param.toInt % 0x10000 ∧ param.toInt % 0x10000 ≤ 0xBFFF

instance (param : Int64) : Decidable (Triple.Maps param) :=
  inferInstanceAs (Decidable (_ ∧ _))

/-- The low sixteen bits of a parameter, negative ones included. -/
theorem Triple.toNat_lowWord (param : Int64) :
    ((lowWord param).toNat : Int) = param.toInt % 0x10000 := by
  have hbits : (lowWord param).toNat = param.toBitVec.toNat % 0x10000 := by
    simp [lowWord, Int64.toNat_toBitVec]
  have hbound := param.toBitVec.isLt
  -- A negative number is its bit pattern less 2 ^ 64, a multiple of 0x10000.
  rw [hbits, ← Int64.toInt_toBitVec, BitVec.toInt_eq_toNat_cond]
  split <;> omega

/-- An address that a parameter maps is found. -/
theorem Instruction.locate_lowWord {param : Int64} (h : Triple.Maps param) :
    ∃ c, locate (Triple.lowWord param) = .ok c := by
  have haddress := Triple.toNat_lowWord param
  obtain ⟨hlow, hhigh⟩ := h
  have hrange : 0xA000 ≤ (Triple.lowWord param).toNat ∧
      (Triple.lowWord param).toNat < 0xC000 := by omega
  simp [locate, Address.cell?, hrange]

/-- An address that a parameter does not map is reported. -/
theorem Instruction.locate_lowWord_of_not {param : Int64} (h : ¬ Triple.Maps param) :
    locate (Triple.lowWord param) = .error ⟨Triple.lowWord param⟩ := by
  have haddress := Triple.toNat_lowWord param
  have hrange : ¬ (0xA000 ≤ (Triple.lowWord param).toNat ∧
      (Triple.lowWord param).toNat < 0xC000) := by
    unfold Triple.Maps at h
    omega
  simp [locate, Address.cell?, hrange]

/-- An operand that is only there under a condition is found if the condition
makes its parameter map an address. -/
theorem Instruction.locate_operand {place : Option Address} {p : Prop} [Decidable p]
    {param : Int64} (hplace : place = if p then some (Triple.lowWord param) else none)
    (h : p → Triple.Maps param) :
    ∀ a ∈ place, ∃ c, locate a = .ok c := by
  intro a ha
  rw [hplace] at ha
  split at ha
  · rename_i hp
    cases ha
    exact locate_lowWord (h hp)
  · cases ha

theorem Instruction.resolve_of_ok {i : Instruction Address}
    (hsrc : ∀ a ∈ i.source?, ∃ c, locate a = .ok c)
    (hdst : ∀ a ∈ i.destination?, ∃ c, locate a = .ok c) :
    ∃ j, i.resolve = .ok j := by
  cases i with
  | init | reset => exact ⟨_, rfl⟩
  | fill dst | swap dst | diff dst | reverse dst | bitset dst =>
    obtain ⟨c, hc⟩ := hdst dst rfl
    simp only [resolve, hc]
    exact ⟨_, rfl⟩
  | xor dst src | copy dst src =>
    obtain ⟨c, hc⟩ := hdst dst rfl
    obtain ⟨d, hd⟩ := hsrc src rfl
    simp only [resolve, hc, hd]
    exact ⟨_, rfl⟩

/-- The source of an instruction is reported first. -/
theorem Instruction.resolve_of_source {i : Instruction Address} {a : Address} {e : Unmapped}
    (hsrc : i.source? = some a) (ha : locate a = .error e) :
    i.resolve = .error e := by
  cases i with
  | xor | copy =>
    cases hsrc
    simp only [resolve, ha]
    rfl
  | _ => cases hsrc

/-- The destination of an instruction is reported when the source is found. -/
theorem Instruction.resolve_of_destination {i : Instruction Address} {a : Address} {e : Unmapped}
    (hsrc : ∀ b ∈ i.source?, ∃ c, locate b = .ok c)
    (hdst : i.destination? = some a) (ha : locate a = .error e) :
    i.resolve = .error e := by
  cases i with
  | init | reset => cases hdst
  | fill | swap | diff | reverse | bitset =>
    cases hdst
    simp only [resolve, ha]
    rfl
  | xor _ src | copy _ src =>
    cases hdst
    obtain ⟨d, hd⟩ := hsrc src rfl
    simp only [resolve, ha, hd]
    rfl

/-! ## The operation -/

/-- Exactly the numbers outside 0 to 8 name no operation. -/
theorem Opcode.ofNumber?_eq_none_iff {n : Int} :
    ofNumber? n = none ↔ ¬ (0 ≤ n ∧ n ≤ 8) := by
  unfold ofNumber?
  split <;> simp_all
  omega

/-- An operation is found only under its own number. -/
theorem Opcode.eq_number_of_ofNumber? {n : Int} {o : Opcode} (h : ofNumber? n = some o) :
    n = o.number.toNat := by
  unfold ofNumber? at h
  split at h <;> cases h <;> rfl

/-! ## The triple as a whole -/

namespace Triple

/-- Whether the numbers of a triple are an instruction that can be carried out. -/
structure WellFormed (t : Triple) : Prop where
  known : 0 ≤ t.opcode.toInt ∧ t.opcode.toInt ≤ 8
  destination : 1 ≤ t.opcode.toInt ∧ t.opcode.toInt ≤ 7 → Maps t.param1
  source : t.opcode.toInt = 5 ∨ t.opcode.toInt = 6 → Maps t.param2

theorem wellFormed_iff (t : Triple) :
    t.WellFormed ↔ (0 ≤ t.opcode.toInt ∧ t.opcode.toInt ≤ 8) ∧
      (1 ≤ t.opcode.toInt ∧ t.opcode.toInt ≤ 7 → Maps t.param1) ∧
      (t.opcode.toInt = 5 ∨ t.opcode.toInt = 6 → Maps t.param2) :=
  ⟨fun h => ⟨h.known, h.destination, h.source⟩, fun h => ⟨h.1, h.2.1, h.2.2⟩⟩

instance (t : Triple) : Decidable t.WellFormed :=
  decidable_of_iff _ (wellFormed_iff t).symm

/-- What a pass reports about an ill-formed triple at position `index`: the
unknown operation, else the source that is no place, else the destination. -/
def faultAt (index : Nat) (t : Triple) : Fault :=
  if ¬ (0 ≤ t.opcode.toInt ∧ t.opcode.toInt ≤ 8) then
    .unknownOperation index t.opcode
  else if (t.opcode.toInt = 5 ∨ t.opcode.toInt = 6) ∧ ¬ Maps t.param2 then
    .unmapped (lowWord t.param2)
  else
    .unmapped (lowWord t.param1)

/-- The instruction of a triple with its places looked up, or the fault of the
triple at position `index`. -/
def resolve (index : Nat) (t : Triple) : Except Fault (Instruction Cell) :=
  match t.decode with
  | .error e => .error (.unknownOperation index e.number)
  | .ok i =>
    match i.resolve with
    | .ok i => .ok i
    | .error e => .error (.unmapped e.address)

/-- A triple with a known operation is decoded.  Operations 1 to 7 have the
first parameter as destination, operations 5 and 6 the second one as source. -/
theorem decode_of_known {t : Triple}
    (h : 0 ≤ t.opcode.toInt ∧ t.opcode.toInt ≤ 8) :
    ∃ i, t.decode = .ok i ∧
      (i.destination? = if 1 ≤ t.opcode.toInt ∧ t.opcode.toInt ≤ 7 then
        some (lowWord t.param1) else none) ∧
      (i.source? = if t.opcode.toInt = 5 ∨ t.opcode.toInt = 6 then
        some (lowWord t.param2) else none) := by
  cases hop : Opcode.ofNumber? t.opcode.toInt with
  | none => exact absurd h (Opcode.ofNumber?_eq_none_iff.1 hop)
  | some o =>
    have hnumber := Opcode.eq_number_of_ofNumber? hop
    -- The operation fixes which parameters are places.
    unfold decode
    rw [hop, hnumber]
    cases o <;> exact ⟨_, rfl, rfl, rfl⟩

theorem decode_of_unknown {t : Triple}
    (h : ¬ (0 ≤ t.opcode.toInt ∧ t.opcode.toInt ≤ 8)) :
    t.decode = .error ⟨t.opcode⟩ := by
  unfold decode
  rw [Opcode.ofNumber?_eq_none_iff.2 h]

/-- A triple either is well-formed and can be carried out, or it is not and
gives its fault. -/
theorem resolve_cases (index : Nat) (t : Triple) :
    (t.WellFormed ∧ ∃ i, t.resolve index = .ok i) ∨
      (¬ t.WellFormed ∧ t.resolve index = .error (t.faultAt index)) := by
  rw [wellFormed_iff]
  by_cases hknown : 0 ≤ t.opcode.toInt ∧ t.opcode.toInt ≤ 8
  · obtain ⟨i, hdecode, hdst, hsrc⟩ := decode_of_known hknown
    unfold resolve faultAt
    rw [hdecode, if_neg (Decidable.not_not.2 hknown)]
    dsimp only
    -- The source is looked up first, so its fault hides that of the destination.
    by_cases hs : (t.opcode.toInt = 5 ∨ t.opcode.toInt = 6) → Maps t.param2
    · have hsource := Instruction.locate_operand hsrc hs
      by_cases hd : (1 ≤ t.opcode.toInt ∧ t.opcode.toInt ≤ 7) → Maps t.param1
      · left
        obtain ⟨j, hj⟩ :=
          Instruction.resolve_of_ok hsource (Instruction.locate_operand hdst hd)
        exact ⟨⟨hknown, hd, hs⟩, j, by rw [hj]⟩
      · right
        obtain ⟨hop, hunmapped⟩ := Classical.not_imp.1 hd
        rw [if_pos hop] at hdst
        have hlost := Instruction.locate_lowWord_of_not hunmapped
        refine ⟨fun h => hd h.2.1, ?_⟩
        rw [if_neg (fun h => h.2 (hs h.1)),
          Instruction.resolve_of_destination hsource hdst hlost]
    · right
      obtain ⟨hop, hunmapped⟩ := Classical.not_imp.1 hs
      rw [if_pos hop] at hsrc
      have hlost := Instruction.locate_lowWord_of_not hunmapped
      refine ⟨fun h => hs h.2.2, ?_⟩
      rw [if_pos ⟨hop, hunmapped⟩, Instruction.resolve_of_source hsrc hlost]
  · right
    refine ⟨fun h => hknown h.1, ?_⟩
    unfold resolve faultAt
    rw [decode_of_unknown hknown, if_pos hknown]

end Triple

end SaveRam
