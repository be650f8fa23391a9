import SaveRam.Proofs.Pass.Append
import SaveRam.Proofs.Pass.Footprint

/-!
# Programs that undo themselves

Exchanging the halves of a byte, reversing the bits in them, and combining a byte
with another one by exclusive or are undone by doing the same once more
(`Instruction.Involutive`).  A program of such triples is undone by the same triples
in reverse order.

The source of an exclusive or may be rewritten before the byte is combined with it
again.  That does not matter, because the triples cancel from the middle of
`p ++ p.reverse` outwards: in `Program.effect_reverse_effect`, an induction over `p`,
everything between the first triple and the last one has cancelled already.
-/

namespace SaveRam

/-! ## Bytes -/

theorem swapNibbles_involutive : Function.Involutive swapNibbles := by
  intro byte
  simp [swapNibbles]

theorem reverseNibbles_involutive : Function.Involutive reverseNibbles := by
  intro byte
  simp [reverseNibbles, BitVec.reverse_reverse_eq]

/-- Storing a byte where it was read changes nothing. -/
theorem Memory.set_get (m : Memory) (c : Cell) : m.set c (m.get c) = m := by
  refine Memory.ext fun d => ?_
  rw [get_set]
  split
  · next h => rw [h]
  · rfl

/-! ## Instructions -/

namespace Instruction

/-- The instructions that undo themselves.  An exclusive or of a byte with itself
clears the byte and does not count. -/
def Involutive {Loc : Type} : Instruction Loc → Prop
  | .swap _ | .reverse _ => True
  | .xor dst src => dst ≠ src
  | _ => False

theorem Involutive.resolve {i : Instruction Address} {j : Instruction Cell} (h : i.Involutive)
    (hj : i.resolve = .ok j) : j.Involutive := by
  cases i with
  | swap | reverse =>
    obtain ⟨c, -, hc⟩ := locate_bind hj
    cases hc
    trivial
  | xor =>
    obtain ⟨d, rfl, hd⟩ := locate_bind hj
    obtain ⟨c, rfl, hc⟩ := locate_bind hd
    cases hc
    rintro rfl
    exact h rfl
  | _ => cases h

theorem apply_apply {i : Instruction Cell} (h : i.Involutive) (s : State) :
    i.apply (i.apply s) = s := by
  obtain ⟨memory, carried⟩ := s
  cases i with
  | swap dst =>
    simp only [apply, Memory.get_set_self, Memory.set_set, swapNibbles_involutive _,
      Memory.set_get]
  | reverse dst =>
    simp only [apply, Memory.get_set_self, Memory.set_set, reverseNibbles_involutive _,
      Memory.set_get]
  | xor dst src =>
    -- The source is another byte, so it is still what it was.
    have hsrc (byte : UInt8) : (memory.set dst byte).get src = memory.get src := by
      rw [Memory.get_set, if_neg h]
    simp only [apply, Memory.get_set_self, Memory.set_set, hsrc, UInt8.xor_assoc,
      UInt8.xor_self, UInt8.xor_zero, Memory.set_get]
  | _ => cases h

end Instruction

/-! ## Programs -/

/-- The triple stands for an instruction that undoes itself. -/
def Triple.Involutive (t : Triple) : Prop := ∃ i, t.decode = .ok i ∧ i.Involutive

/-- A triple that undoes itself does so also where an address is unmapped, since then
it does nothing. -/
theorem Triple.effect_effect {t : Triple} (h : t.Involutive) (s : State) :
    t.effect (t.effect s) = s := by
  obtain ⟨i, hi, hinvolutive⟩ := h
  unfold effect State.execute
  rw [hi]
  dsimp only
  cases hj : i.resolve with
  | error e => rfl
  | ok j => exact Instruction.apply_apply (hinvolutive.resolve hj) s

namespace Program

variable {p : Program}

/-- The triples of a program in reverse order undo the program. -/
theorem effect_reverse_effect (h : ∀ t ∈ p, t.Involutive) (s : State) :
    effect p.reverse (p.effect s) = s := by
  induction p generalizing s with
  | nil => rfl
  | cons t p ih =>
    obtain ⟨ht, hp⟩ := List.forall_mem_cons.1 h
    rw [List.reverse_cons, effect_append, effect_cons t p, ih hp]
    exact Triple.effect_effect ht s

theorem WellFormed.append_reverse (h : p.WellFormed) : WellFormed (p ++ p.reverse) := by
  intro t ht
  rw [List.mem_append, List.mem_reverse, or_self] at ht
  exact h t ht

end Program

/-- A machine whose program undoes itself counts a pass and is as before. -/
theorem Machine.pass_of_mirrored {m : Machine} {p : Program} (hp : p.WellFormed)
    (h : ∀ t ∈ p, t.Involutive) (hm : m.program = p ++ p.reverse) :
    m.pass = (⟨m.state, m.program, m.passes + 1⟩, none) := by
  have hwf : m.program.WellFormed := hm ▸ hp.append_reverse
  rw [pass_of_wellFormed hwf, next_of_wellFormed hwf, hm, Program.effect_append,
    Program.effect_reverse_effect h]

end SaveRam
