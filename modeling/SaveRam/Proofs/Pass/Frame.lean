import SaveRam.Journal.Pass
import SaveRam.Proofs.Memory.Map
import SaveRam.Proofs.Pass.Access
import SaveRam.Proofs.Pass.Footprint

/-!
# What an instruction touches

An instruction is carried out completely or not at all, and it changes nothing but
the byte at its destination and, for three of the operations, the carried nibble.

There are three groups.

* The places.  `Instruction.resolve_cases` says which look-up of an instruction
  fails: that of the source if it is unmapped, and otherwise that of the
  destination.  `Instruction.frame_of_resolve` says what a look-up keeps.
* The effect on cells.  `Instruction.get_apply_of_ne` and
  `Instruction.carried_apply` are the frame of an instruction whose places are
  found.
* Execution.  `State.execute_cases` joins the two, `State.isSome_written?` is the
  byte that the journal shows, and `Program.exists_of_mem_stepsFrom` says that the
  journal of a pass lists instructions that were carried out.

`State.execute_frame` is the statement about an instruction and any state.
-/

namespace SaveRam

/-! ## The places of an instruction -/

namespace Instruction

theorem exists_locate_iff {a : Address} : (∃ c, locate a = .ok c) ↔ a.Mapped := by
  unfold locate
  cases hcell : a.cell? with
  | none => simp [Address.cell?_eq_none_iff.1 hcell]
  | some c =>
    obtain rfl := Address.cell?_eq_some_iff.1 hcell
    simp [c.mapped_address]

theorem locate_of_not_mapped {a : Address} (h : ¬ a.Mapped) : locate a = .error ⟨a⟩ := by
  rw [locate, Address.cell?_eq_none_iff.2 h]

/-- Both places of an instruction are mapped, as far as it has them. -/
structure Mapped (i : Instruction Address) : Prop where
  source : ∀ a ∈ i.source?, a.Mapped
  destination : ∀ a ∈ i.destination?, a.Mapped

/-- The address that is reported for an instruction: an unmapped source, or an
unmapped destination beside a mapped source. -/
def Refuses (i : Instruction Address) (a : Address) : Prop :=
  (i.source? = some a ∨ (∀ b ∈ i.source?, b.Mapped) ∧ i.destination? = some a) ∧ ¬ a.Mapped

/-- The places of an instruction are found, or one of them is refused. -/
theorem resolve_cases (i : Instruction Address) :
    (i.Mapped ∧ ∃ j, i.resolve = .ok j) ∨
      (¬ i.Mapped ∧ ∃ a, i.Refuses a ∧ i.resolve = .error ⟨a⟩) := by
  by_cases hsrc : ∀ a ∈ i.source?, a.Mapped
  · have hfound : ∀ a ∈ i.source?, ∃ c, locate a = .ok c := fun a ha =>
      exists_locate_iff.2 (hsrc a ha)
    by_cases hdst : ∀ a ∈ i.destination?, a.Mapped
    · left
      exact ⟨⟨hsrc, hdst⟩, resolve_of_ok hfound fun a ha => exists_locate_iff.2 (hdst a ha)⟩
    · right
      obtain ⟨a, ha⟩ := Classical.not_forall.1 hdst
      obtain ⟨ha, hlost⟩ := Classical.not_imp.1 ha
      exact ⟨fun h => hdst h.destination, a, ⟨.inr ⟨hsrc, ha⟩, hlost⟩,
        resolve_of_destination hfound ha (locate_of_not_mapped hlost)⟩
  · right
    obtain ⟨a, ha⟩ := Classical.not_forall.1 hsrc
    obtain ⟨ha, hlost⟩ := Classical.not_imp.1 ha
    exact ⟨fun h => hsrc h.source, a, ⟨.inl ha, hlost⟩,
      resolve_of_source ha (locate_of_not_mapped hlost)⟩

/-- Looking up the places changes neither the operation nor the destination. -/
theorem frame_of_resolve {i : Instruction Address} {j : Instruction Cell} (h : i.resolve = .ok j) :
    j.opcode = i.opcode ∧ i.destination? = j.destination?.map Cell.address := by
  cases i with
  | init | reset =>
    cases h
    exact ⟨rfl, rfl⟩
  | fill | swap | diff | reverse | bitset =>
    obtain ⟨c, rfl, hc⟩ := locate_bind h
    cases hc
    exact ⟨rfl, rfl⟩
  | xor | copy =>
    obtain ⟨d, rfl, hd⟩ := locate_bind h
    obtain ⟨c, rfl, hc⟩ := locate_bind hd
    cases hc
    exact ⟨rfl, rfl⟩

end Instruction

/-! ## The effect on cells -/

/-- The operations that set the carried nibble. -/
def Opcode.SetsCarried (o : Opcode) : Prop := o = .init ∨ o = .reset ∨ o = .diff

namespace Instruction

variable {j : Instruction Cell}

/-- An instruction writes its destination only. -/
theorem get_apply_of_ne {c : Cell} (h : j.destination? ≠ some c) (s : State) :
    (j.apply s).memory.get c = s.memory.get c := by
  cases j with
  | init | reset => rfl
  | fill dst | swap dst | diff dst | reverse dst | xor dst | copy dst | bitset dst =>
    have hne : dst ≠ c := fun heq => h (congrArg some heq)
    exact (Memory.get_set _ _ _ _).trans (if_neg hne)

theorem carried_apply (h : ¬ j.opcode.SetsCarried) (s : State) :
    (j.apply s).carried = s.carried := by
  cases j with
  | init | reset | diff => simp [opcode, Opcode.SetsCarried] at h
  | _ => rfl

end Instruction

/-! ## Execution -/

namespace State

/-- An instruction has its effect on cells, or the state stays and an address is
refused. -/
theorem execute_cases (s : State) (i : Instruction Address) :
    (i.Mapped ∧ ∃ j, i.resolve = .ok j ∧ s.execute i = (j.apply s, none)) ∨
      (¬ i.Mapped ∧ ∃ a, i.Refuses a ∧ s.execute i = (s, some ⟨a⟩)) := by
  unfold execute
  rcases i.resolve_cases with ⟨hmapped, j, hj⟩ | ⟨hmapped, a, ha, herror⟩
  · left
    rw [hj]
    exact ⟨hmapped, j, rfl, rfl⟩
  · right
    rw [herror]
    exact ⟨hmapped, a, ha, rfl⟩

theorem execute_eq_none_iff {s : State} {i : Instruction Address} :
    (s.execute i).2 = none ↔ i.Mapped := by
  rcases s.execute_cases i with ⟨hmapped, j, -, hexecute⟩ | ⟨hmapped, a, -, hexecute⟩ <;>
    simp [hexecute, hmapped]

/-- Every address but the destination answers as before. -/
theorem read_apply_of_ne {i : Instruction Address} {j : Instruction Cell} (h : i.resolve = .ok j)
    {a : Address} (ha : i.destination? ≠ some a) (s : State) :
    (j.apply s).memory.read a = s.memory.read a := by
  rcases a.cell_cases with ⟨c, rfl⟩ | ⟨hcell, -⟩
  · have hne : j.destination? ≠ some c := by
      intro hdst
      rw [(Instruction.frame_of_resolve h).2, hdst] at ha
      exact ha rfl
    rw [Memory.read_address, Memory.read_address, Instruction.get_apply_of_ne hne]
  · rw [Memory.read, Memory.read, hcell]

/-- The byte at a mapped destination can be shown, whatever the state. -/
theorem isSome_written? (s : State) {i : Instruction Address} (h : i.Mapped) :
    (s.written? i).isSome = i.destination?.isSome := by
  unfold written?
  cases hdst : i.destination? with
  | none => rfl
  | some a =>
    obtain ⟨byte, hbyte⟩ := Memory.exists_read_iff.2 (h.destination a hdst)
    rw [Option.bind_some, hbyte]
    rfl

end State

/-- The journal of a pass lists instructions that were carried out, each with the
byte that it left at its destination. -/
theorem Program.exists_of_mem_stepsFrom {index : Nat} {p : Program} {s : State} {step : Step}
    (h : step ∈ p.stepsFrom index s) :
    ∃ s' : State, step.instruction.Mapped ∧ step.written = s'.written? step.instruction := by
  induction p generalizing index s with
  | nil => cases h
  | cons t p ih =>
    rw [stepsFrom] at h
    cases hdecode : t.decode with
    | error e =>
      rw [hdecode] at h
      cases h
    | ok i =>
      rw [hdecode] at h
      dsimp only at h
      rcases s.execute_cases i with ⟨hmapped, j, -, hexecute⟩ | ⟨-, a, -, hexecute⟩
      · rw [hexecute] at h
        rcases List.mem_cons.1 h with rfl | h
        · exact ⟨_, hmapped, rfl⟩
        · exact ih h
      · rw [hexecute] at h
        cases h

/-- An instruction succeeds exactly when its places are mapped.  If it fails, the
state stays as it was and the error names the source, or else the destination.  If
it succeeds, only the byte at the destination changes, the nibble changes only for
the operations that set it, and the byte at the destination can be read.  All this
also holds of the instruction carried out access by access, where what was changed
before a failing access stays changed.  In the journal of a pass exactly the
instructions with a destination show a byte. -/
theorem State.execute_frame (s : State) (i : Instruction Address) :
    ((s.execute i).2 = none ↔ i.Mapped) ∧
    (∀ e, (s.execute i).2 = some e → (s.execute i).1 = s ∧ ∃ a, i.Refuses a ∧ e = ⟨a⟩) ∧
    ((s.execute i).2 = none →
      (∀ a, i.destination? ≠ some a → (s.execute i).1.memory.read a = s.memory.read a) ∧
        (¬ i.opcode.SetsCarried → (s.execute i).1.carried = s.carried) ∧
        ∀ a ∈ i.destination?, ∃ byte, (s.execute i).1.memory.read a = .ok byte) ∧
    (i.accesses.run s =
      match s.execute i with
      | (s', none) => .ok () s'
      | (s', some e) => .error e s') ∧
    ∀ (p : Program) (index : Nat), ∀ step ∈ p.stepsFrom index s,
      step.written.isSome = step.instruction.destination?.isSome := by
  refine ⟨execute_eq_none_iff, fun e herror => ?_, fun hsuccess => ?_, s.run_accesses i,
    fun p index step hstep => ?_⟩
  · rcases s.execute_cases i with ⟨-, j, -, hexecute⟩ | ⟨-, a, ha, hexecute⟩
    · rw [hexecute] at herror
      cases herror
    · rw [hexecute] at herror ⊢
      cases herror
      exact ⟨rfl, a, ha, rfl⟩
  · have hmapped := execute_eq_none_iff.1 hsuccess
    rcases s.execute_cases i with ⟨-, j, hj, hexecute⟩ | ⟨hunmapped, -⟩
    · rw [hexecute]
      refine ⟨fun a ha => read_apply_of_ne hj ha s, fun hop => ?_, fun a ha => ?_⟩
      · rw [← (Instruction.frame_of_resolve hj).1] at hop
        exact Instruction.carried_apply hop s
      · exact Memory.exists_read_iff.2 (hmapped.destination a ha)
    · exact absurd hmapped hunmapped
  · obtain ⟨s', hmapped, hwritten⟩ := Program.exists_of_mem_stepsFrom hstep
    rw [hwritten, s'.isSome_written? hmapped]

/-- A copy with two unmapped places, and a diff of one byte beside another. -/
theorem State.execute_frame_copy_diff :
    let s : State := ⟨.ofBytes [0x3C, 7], 0x9⟩
    let copied := s.execute (.copy 0xC000 0x8000)
    let diffed := s.execute (.diff 0xA000 true)
    (copied.1 = s ∧ copied.2 = some ⟨0x8000⟩) ∧
      diffed.2 = none ∧ diffed.1.memory.read 0xA001 = s.memory.read 0xA001 := by
  intro s copied diffed
  have hcopied : copied.2 = some ⟨0x8000⟩ := rfl
  have hdiffed : diffed.2 = none := rfl
  obtain ⟨-, herror, -⟩ := execute_frame s (.copy 0xC000 0x8000)
  obtain ⟨-, -, hframe, -⟩ := execute_frame s (.diff 0xA000 true)
  refine ⟨⟨(herror _ hcopied).1, hcopied⟩, hdiffed, ?_⟩
  exact (hframe hdiffed).1 0xA001 (by decide)

end SaveRam
