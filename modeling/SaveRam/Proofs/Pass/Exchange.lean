import SaveRam.Proofs.Pass.Append
import SaveRam.Proofs.Pass.Frame

/-!
# Instructions that may be exchanged

Two instructions are independent when each spares what the other one works with:
it does not write the other's destination or source, and it does not set the carried
nibble if the other one is a diff (`Instruction.Spares`, in both directions).  Then
their order does not matter.

The argument has two halves.  `Instruction.SeesAlike` are the states that an
instruction cannot tell apart; it leaves the same byte and the same nibble behind in
both.  An instruction that is spared cannot tell the state before from the state
after (`Instruction.Spares.seesAlike`), and what it does not touch is the frame of
`SaveRam.Proofs.Pass.Frame`.  Together they give `Instruction.apply_comm` on cells,
and from it the exchange inside of a program and in a run of several passes.
-/

namespace SaveRam

instance (o : Opcode) : Decidable o.SetsCarried :=
  inferInstanceAs (Decidable (o = .init ∨ o = .reset ∨ o = .diff))

namespace Instruction

/-! ## Independence -/

/-- The instruction `i` leaves alone what `j` reads and writes.  Of the operations
only a diff reads the carried nibble; what sets it does so without looking. -/
structure Spares {Loc : Type} (i j : Instruction Loc) : Prop where
  destination : ∀ a ∈ i.destination?, j.destination? ≠ some a
  source : ∀ a ∈ i.destination?, j.source? ≠ some a
  carried : j.opcode = .diff → ¬ i.opcode.SetsCarried

/-- Neither of two instructions disturbs the other. -/
structure Independent {Loc : Type} (i j : Instruction Loc) : Prop where
  left : i.Spares j
  right : j.Spares i

instance {Loc : Type} [DecidableEq Loc] (i j : Instruction Loc) : Decidable (i.Spares j) :=
  decidable_of_iff
    ((∀ a ∈ i.destination?, j.destination? ≠ some a) ∧
      (∀ a ∈ i.destination?, j.source? ≠ some a) ∧ (j.opcode = .diff → ¬ i.opcode.SetsCarried))
    ⟨fun h => ⟨h.1, h.2.1, h.2.2⟩, fun h => ⟨h.destination, h.source, h.carried⟩⟩

instance {Loc : Type} [DecidableEq Loc] (i j : Instruction Loc) : Decidable (i.Independent j) :=
  decidable_of_iff (i.Spares j ∧ j.Spares i)
    ⟨fun h => ⟨h.1, h.2⟩, fun h => ⟨h.left, h.right⟩⟩

/-! ## What an instruction sees -/

/-- The instruction finds the same bytes in both states, and the same nibble if it
looks at it. -/
structure SeesAlike (i : Instruction Cell) (s t : State) : Prop where
  destination : ∀ c ∈ i.destination?, s.memory.get c = t.memory.get c
  source : ∀ c ∈ i.source?, s.memory.get c = t.memory.get c
  carried : i.opcode = .diff → s.carried = t.carried

variable {i j : Instruction Cell} {s t : State}

/-- An instruction leaves the same byte behind where it sees the same. -/
theorem SeesAlike.get_apply (h : i.SeesAlike s t) {c : Cell} (hc : i.destination? = some c) :
    (i.apply s).memory.get c = (i.apply t).memory.get c := by
  obtain ⟨hdst, hsrc, hcarried⟩ := h
  cases i with
  | init | reset => cases hc
  | fill | swap | reverse | bitset =>
    cases hc
    simp only [apply, Memory.get_set_self, hdst c rfl]
  | xor _ src | copy _ src =>
    cases hc
    simp only [apply, Memory.get_set_self, hdst c rfl, hsrc src rfl]
  | diff =>
    cases hc
    simp only [apply, Memory.get_set_self, hdst c rfl, hcarried rfl]

/-- An instruction that sets the nibble sets it alike where it sees the same. -/
theorem SeesAlike.carried_apply (h : i.SeesAlike s t) (hsets : i.opcode.SetsCarried) :
    (i.apply s).carried = (i.apply t).carried := by
  cases i with
  | init | reset => rfl
  | diff dst => simp only [apply, h.destination dst rfl, h.carried rfl]
  | _ => simp [opcode, Opcode.SetsCarried] at hsets

/-- The operations that set the nibble without being a diff clear it. -/
theorem carried_apply_of_clears (hsets : i.opcode.SetsCarried) (hdiff : i.opcode ≠ .diff)
    (s : State) : (i.apply s).carried = 0 := by
  cases i with
  | init | reset => rfl
  | diff => exact absurd rfl hdiff
  | _ => simp [opcode, Opcode.SetsCarried] at hsets

/-- A spared instruction cannot tell whether the other one was carried out. -/
theorem Spares.seesAlike (h : j.Spares i) (s : State) : i.SeesAlike (j.apply s) s where
  destination c hc := get_apply_of_ne (fun hj => h.destination c hj hc) s
  source c hc := get_apply_of_ne (fun hj => h.source c hj hc) s
  carried hdiff := Instruction.carried_apply (h.carried hdiff) s

/-! ## Exchange on cells -/

theorem Independent.symm {Loc : Type} {i j : Instruction Loc} (h : i.Independent j) :
    j.Independent i := ⟨h.right, h.left⟩

/-- The byte that an instruction leaves behind is the same in both orders. -/
theorem Independent.get_apply (h : i.Independent j) (s : State) {c : Cell}
    (hc : i.destination? = some c) :
    (i.apply (j.apply s)).memory.get c = (j.apply (i.apply s)).memory.get c := by
  have hspared : j.destination? ≠ some c := fun hj => h.right.destination c hj hc
  calc (i.apply (j.apply s)).memory.get c
      = (i.apply s).memory.get c := (h.right.seesAlike s).get_apply hc
    _ = (j.apply (i.apply s)).memory.get c := (get_apply_of_ne hspared (i.apply s)).symm

/-- The nibble that an instruction sets is the same in both orders. -/
theorem Independent.carried_apply (h : i.Independent j) (s : State)
    (hsets : i.opcode.SetsCarried) :
    (i.apply (j.apply s)).carried = (j.apply (i.apply s)).carried := by
  by_cases hj : j.opcode.SetsCarried
  · -- Beside another one that sets the nibble, neither is a diff, so both clear it.
    have hi : i.opcode ≠ .diff := fun hdiff => h.right.carried hdiff hj
    have hj' : j.opcode ≠ .diff := fun hdiff => h.left.carried hdiff hsets
    rw [carried_apply_of_clears hsets hi, carried_apply_of_clears hj hj']
  · calc (i.apply (j.apply s)).carried
        = (i.apply s).carried := (h.right.seesAlike s).carried_apply hsets
      _ = (j.apply (i.apply s)).carried := (Instruction.carried_apply hj (i.apply s)).symm

/-- Independent instructions commute. -/
theorem apply_comm (h : i.Independent j) (s : State) :
    i.apply (j.apply s) = j.apply (i.apply s) := by
  have hmemory : (i.apply (j.apply s)).memory = (j.apply (i.apply s)).memory := by
    refine Memory.ext fun c => ?_
    by_cases hi : i.destination? = some c
    · exact h.get_apply s hi
    by_cases hj : j.destination? = some c
    · exact (h.symm.get_apply s hj).symm
    rw [get_apply_of_ne hi, get_apply_of_ne hj, get_apply_of_ne hj, get_apply_of_ne hi]
  have hcarried : (i.apply (j.apply s)).carried = (j.apply (i.apply s)).carried := by
    by_cases hi : i.opcode.SetsCarried
    · exact h.carried_apply s hi
    by_cases hj : j.opcode.SetsCarried
    · exact (h.symm.carried_apply s hj).symm
    rw [Instruction.carried_apply hi, Instruction.carried_apply hj, Instruction.carried_apply hj,
      Instruction.carried_apply hi]
  exact congrArg₂ State.mk hmemory hcarried

/-! ## Exchange in programs -/

/-- Looking up the places keeps the source. -/
theorem source_of_resolve {i : Instruction Address} {j : Instruction Cell}
    (h : i.resolve = .ok j) : i.source? = j.source?.map Cell.address := by
  cases i with
  | init | reset =>
    cases h
    rfl
  | fill | swap | diff | reverse | bitset =>
    obtain ⟨c, -, hc⟩ := locate_bind h
    cases hc
    rfl
  | xor | copy =>
    obtain ⟨d, rfl, hd⟩ := locate_bind h
    obtain ⟨c, -, hc⟩ := locate_bind hd
    cases hc
    rfl

/-- Looking up the places keeps what is spared. -/
theorem Spares.resolve {i j : Instruction Address} {i' j' : Instruction Cell} (h : i.Spares j)
    (hi : i.resolve = .ok i') (hj : j.resolve = .ok j') : i'.Spares j' := by
  obtain ⟨hopi, hdsti⟩ := frame_of_resolve hi
  obtain ⟨hopj, hdstj⟩ := frame_of_resolve hj
  have hwrites : ∀ c ∈ i'.destination?, i.destination? = some c.address := fun c hc => by
    rw [hdsti, hc]
    rfl
  refine ⟨fun c hc hd => h.destination c.address (hwrites c hc) ?_,
    fun c hc hs => h.source c.address (hwrites c hc) ?_, fun hdiff => ?_⟩
  · rw [hdstj, hd]
    rfl
  · rw [source_of_resolve hj, hs]
    rfl
  · rw [hopj] at hdiff
    rw [hopi]
    exact h.carried hdiff

end Instruction

/-- Triples of independent instructions commute, also when an address is unmapped. -/
theorem Triple.effect_comm {t u : Triple} {i j : Instruction Address} (ht : t.decode = .ok i)
    (hu : u.decode = .ok j) (h : i.Independent j) (s : State) :
    u.effect (t.effect s) = t.effect (u.effect s) := by
  unfold effect State.execute
  rw [ht, hu]
  dsimp only
  cases hi : i.resolve with
  | error e => rfl
  | ok i' =>
    cases hj : j.resolve with
    | error e => rfl
    | ok j' =>
      exact Instruction.apply_comm ⟨h.right.resolve hj hi, h.left.resolve hi hj⟩ s

namespace Program

variable {p q : Program} {t u : Triple} {i j : Instruction Address}

theorem effect_exchange (ht : t.decode = .ok i) (hu : u.decode = .ok j) (h : i.Independent j)
    (s : State) : effect (p ++ u :: t :: q) s = effect (p ++ t :: u :: q) s := by
  rw [effect_append, effect_append, effect_cons, effect_cons, effect_cons, effect_cons,
    Triple.effect_comm ht hu h]

/-- The order of the triples does not matter to whether they can be carried out. -/
theorem WellFormed.perm {p q : Program} (h : p.WellFormed) (hperm : p.Perm q) : q.WellFormed :=
  fun t ht => h t (hperm.mem_iff.2 ht)

end Program

/-- Two neighbouring triples of a well-formed program whose instructions are
independent may be exchanged: from every state, a run of any number of passes succeeds
as before and ends in the same state with the same number of passes. -/
theorem Machine.run_exchange {m : Machine} {p q : Program} {t u : Triple}
    {i j : Instruction Address} (hprogram : m.program = p ++ t :: u :: q)
    (hwf : m.program.WellFormed) (ht : t.decode = .ok i) (hu : u.decode = .ok j)
    (h : i.Independent j) (n : Nat) :
    (m.run n).2 = none ∧
      (m.withProgram (p ++ u :: t :: q)).run n =
        ((m.run n).1.withProgram (p ++ u :: t :: q), none) := by
  have hperm : m.program.Perm (p ++ u :: t :: q) := by
    rw [hprogram]
    exact (List.Perm.swap u t q).append_left p
  have hwf' : (m.withProgram (p ++ u :: t :: q)).program.WellFormed := hwf.perm hperm
  have heffect : Program.effect (p ++ u :: t :: q) = m.program.effect := by
    funext s
    rw [hprogram, Program.effect_exchange ht hu h]
  rw [run_of_wellFormed hwf, run_of_wellFormed hwf', after_of_wellFormed hwf,
    after_of_wellFormed hwf']
  refine ⟨rfl, ?_⟩
  simp only [withProgram, heffect]

/-- A diff and an exclusive or that read and write other bytes. -/
theorem Machine.run_exchange_diff_xor :
    let m : Machine := ⟨⟨.ofBytes [0x3C, 7, 9], 0x5⟩,
      [⟨1, 0xA000, 0x1E⟩, ⟨3, 0xA000, 1⟩, ⟨5, 0xA001, 0xA002⟩, ⟨6, 0xA002, 0xA001⟩], 2⟩
    let exchanged : Program :=
      [⟨1, 0xA000, 0x1E⟩, ⟨5, 0xA001, 0xA002⟩, ⟨3, 0xA000, 1⟩, ⟨6, 0xA002, 0xA001⟩]
    m.program.WellFormed ∧
      Instruction.Independent (.diff (0xA000 : Address) true) (.xor 0xA001 0xA002) ∧
      (m.run 5).2 = none ∧
      (m.withProgram exchanged).run 5 = ((m.run 5).1.withProgram exchanged, none) := by
  intro m exchanged
  have hwf : m.program.WellFormed := by decide
  have h : Instruction.Independent (.diff (0xA000 : Address) true) (.xor 0xA001 0xA002) := by
    decide
  exact ⟨hwf, h, run_exchange (p := [_]) rfl hwf rfl rfl h 5⟩

end SaveRam
