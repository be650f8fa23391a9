import SaveRam.Proofs.Nibble.Linear
import SaveRam.Proofs.Pass.Effect

/-!
# A pass is an affine map

Memories and states are vectors over the field with two elements: their sum is
the exclusive or of all bytes and of the carried nibble.  A map `f` is
`XorAffine` when it sends a sum of three to the sum of the three images.  This
is what remains of linearity when a constant is added, and a fill or a mask
does add one.

`Instruction.affine_apply` is the case analysis over the nine operations.
Seven of them write one byte, which is an affine function of the state;
`XorAffine.store` is their common shape.  From there on affine maps compose: a
triple, a program and any number of passes are affine, and `Machine.run_affine`
states it for runs.
-/

namespace SaveRam

/-! ## Sums of memories and states -/

/-- The exclusive or of two images, byte by byte. -/
instance : XorOp Memory where
  xor m n := ⟨Vector.zipWith (· ^^^ ·) m.cells n.cells⟩

/-- The exclusive or of two states. -/
instance : XorOp State where
  xor s t := ⟨s.memory ^^^ t.memory, s.carried ^^^ t.carried⟩

@[simp] theorem Memory.get_xor (m n : Memory) (c : Cell) :
    (m ^^^ n).get c = m.get c ^^^ n.get c := by
  show (Vector.zipWith (· ^^^ ·) m.cells n.cells)[c] = m.cells[c] ^^^ n.cells[c]
  simp

@[simp] theorem State.memory_xor (s t : State) : (s ^^^ t).memory = s.memory ^^^ t.memory := rfl

@[simp] theorem State.carried_xor (s t : State) :
    (s ^^^ t).carried = s.carried ^^^ t.carried := rfl

/-- A byte is stored into a sum by storing its summands. -/
theorem Memory.set_xor (m n : Memory) (c : Cell) (x y : UInt8) :
    (m ^^^ n).set c (x ^^^ y) = m.set c x ^^^ n.set c y := by
  ext d
  simp only [get_set, get_xor]
  split <;> rfl

/-! ## Affine maps -/

section Affine

variable {α β γ : Type} [XorOp α] [XorOp β] [XorOp γ]

/-- A map that sends the sum of three to the sum of the images. -/
def XorAffine (f : α → β) : Prop :=
  ∀ a b c, f (a ^^^ b ^^^ c) = f a ^^^ f b ^^^ f c

/-- A map that sends sums to sums is affine. -/
theorem XorAffine.of_xor {f : α → β} (h : ∀ a b, f (a ^^^ b) = f a ^^^ f b) :
    XorAffine f := by
  intro a b c
  rw [h, h]

theorem XorAffine.id : XorAffine (fun a : α => a) := fun _ _ _ => rfl

theorem XorAffine.comp {g : β → γ} {f : α → β} (hg : XorAffine g) (hf : XorAffine f) :
    XorAffine fun a => g (f a) := by
  intro a b c
  dsimp only
  rw [hf, hg]

theorem XorAffine.iterate {f : α → α} (hf : XorAffine f) (n : Nat) : XorAffine f^[n] := by
  induction n with
  | zero => exact XorAffine.id
  | succ n ih =>
    rw [Function.iterate_succ]
    exact ih.comp hf

/-- A constant is affine, being the sum of itself three times. -/
theorem XorAffine.const_byte (x : UInt8) : XorAffine fun _ : α => x := by
  intro _ _ _
  rw [UInt8.xor_self, UInt8.zero_xor]

/-- The sum of two affine bytes is affine. -/
theorem XorAffine.xor_byte {f g : α → UInt8} (hf : XorAffine f) (hg : XorAffine g) :
    XorAffine fun a => f a ^^^ g a := by
  intro a b c
  dsimp only
  rw [hf, hg]
  ac_rfl

/-- Setting the bits of a mask is affine. -/
theorem XorAffine.or_mask (mask : UInt8) : XorAffine fun b : UInt8 => b ||| mask := by
  intro a b c
  apply UInt8.toBitVec_inj.1
  ext i hi
  simp only [UInt8.toBitVec_or, UInt8.toBitVec_xor, BitVec.getElem_or, BitVec.getElem_xor]
  cases mask.toBitVec[i] <;> simp

end Affine

/-! ## Instructions, programs and runs -/

/-- The byte in a cell is an affine function of the state. -/
theorem XorAffine.get (c : Cell) : XorAffine fun s : State => s.memory.get c :=
  XorAffine.of_xor fun _ _ => by simp

theorem XorAffine.carried : XorAffine State.carried := fun _ _ _ => rfl

/-- The differential code of a cell is affine. -/
theorem XorAffine.diff_code (inverted : Bool) (c : Cell) :
    XorAffine fun s : State => (DiffCode.byte inverted s.carried (s.memory.get c)).1 :=
  XorAffine.of_xor fun s t => by
    rw [State.carried_xor, State.memory_xor, Memory.get_xor, DiffCode.byte_xor]

/-- The nibble that the differential code of a cell carries on is affine. -/
theorem XorAffine.diff_carried (inverted : Bool) (c : Cell) :
    XorAffine fun s : State => (DiffCode.byte inverted s.carried (s.memory.get c)).2 :=
  XorAffine.of_xor fun s t => by
    rw [State.carried_xor, State.memory_xor, Memory.get_xor, DiffCode.byte_xor]

/-- Storing an affine byte and carrying on an affine nibble is affine. -/
theorem XorAffine.store {byte : State → UInt8} {carry : State → Nibble} (dst : Cell)
    (hbyte : XorAffine byte) (hcarry : XorAffine carry) :
    XorAffine fun s => (⟨s.memory.set dst (byte s), carry s⟩ : State) := by
  intro a b c
  dsimp only
  rw [hbyte, hcarry, State.memory_xor, State.memory_xor, Memory.set_xor, Memory.set_xor]
  rfl

/-- Every instruction is an affine map of the state. -/
theorem Instruction.affine_apply (i : Instruction Cell) : XorAffine i.apply := by
  cases i with
  | init | reset =>
    -- The nibble becomes zero, which is the sum of three zeros.
    intro a b c
    show (⟨_, 0⟩ : State) = ⟨_, 0 ^^^ 0 ^^^ 0⟩
    rfl
  | fill dst byte => exact .store dst (.const_byte byte) .carried
  | swap dst => exact .store dst ((XorAffine.of_xor swapNibbles_xor).comp (.get dst)) .carried
  | diff dst inverted =>
    exact .store dst (.diff_code inverted dst) (.diff_carried inverted dst)
  | reverse dst =>
    exact .store dst ((XorAffine.of_xor reverseNibbles_xor).comp (.get dst)) .carried
  | xor dst src => exact .store dst (.xor_byte (.get dst) (.get src)) .carried
  | copy dst src => exact .store dst (.get src) .carried
  | bitset dst mask => exact .store dst ((XorAffine.or_mask mask).comp (.get dst)) .carried

/-- A triple is an affine map of the state, also when it cannot be carried out. -/
theorem Triple.affine_effect (t : Triple) : XorAffine t.effect := by
  cases hi : t.resolve 0 with
  | ok i =>
    have heffect : t.effect = i.apply := funext fun s => by rw [effect_eq 0, hi]
    rw [heffect]
    exact i.affine_apply
  | error e =>
    have heffect : t.effect = fun s => s := funext fun s => by rw [effect_eq 0, hi]
    rw [heffect]
    exact XorAffine.id

/-- Every program is an affine map of the state. -/
theorem Program.affine_effect (p : Program) : XorAffine p.effect := by
  induction p with
  | nil => exact XorAffine.id
  | cons t p ih => exact ih.comp t.affine_effect

/-- When a program can make a pass at all, every run of it succeeds, and the
run from a sum of three states ends in the sum of the three end states. -/
theorem Machine.run_affine (p : Program) (h : ∃ s : State, (p.pass s).2 = none)
    (n : Nat) (a b c : State) (k i j l : Nat) :
    (∀ (s : State) (passes : Nat), (run n ⟨s, p, passes⟩).2 = none) ∧
      (run n ⟨a ^^^ b ^^^ c, p, k⟩).1.state =
        (run n ⟨a, p, i⟩).1.state ^^^ (run n ⟨b, p, j⟩).1.state ^^^
          (run n ⟨c, p, l⟩).1.state := by
  obtain ⟨s, hs⟩ := h
  rw [Program.pass_eq] at hs
  have hp : p.WellFormed := Program.fault?_eq_none_iff.1 hs
  have hrun : ∀ (s : State) (passes : Nat),
      run n ⟨s, p, passes⟩ = (⟨p.effect^[n] s, p, passes + n⟩, none) := by
    intro s passes
    have hm : (⟨s, p, passes⟩ : Machine).program.WellFormed := hp
    rw [run_of_wellFormed hm, after_of_wellFormed hm]
  refine ⟨fun s passes => by rw [hrun], ?_⟩
  rw [hrun, hrun, hrun, hrun]
  exact (p.affine_effect.iterate n) a b c

/-- Three passes of a program with a diff, a mask and an exclusive or. -/
theorem Machine.run_affine_three_passes :
    let p : Program := [⟨3, 0xA000, 1⟩, ⟨7, 0xA001, 0x0F⟩, ⟨5, 0xA000, 0xA001⟩]
    let a : State := ⟨.ofBytes [1, 2], 1⟩
    let b : State := ⟨.ofBytes [4, 8], 2⟩
    let c : State := ⟨.ofBytes [16, 32], 4⟩
    (p.pass a).2 = none ∧
      (run 3 ⟨a ^^^ b ^^^ c, p, 0⟩).1.state =
        (run 3 ⟨a, p, 0⟩).1.state ^^^ (run 3 ⟨b, p, 0⟩).1.state ^^^
          (run 3 ⟨c, p, 0⟩).1.state := by
  intro p a b c
  have hpass : (p.pass a).2 = none := by
    rw [Program.pass_eq]
    decide
  exact ⟨hpass, (run_affine p ⟨a, hpass⟩ 3 a b c 0 0 0 0).2⟩

end SaveRam
