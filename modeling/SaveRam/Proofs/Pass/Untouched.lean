import SaveRam.Proofs.Pass.Frame

/-!
# What a pass leaves alone

The bytes that no instruction of a program has for its destination are the same
after any number of passes, and this does not depend on what the passes read, on
the carried nibble or on whether they succeed.

`State.agreeOn_execute` is the step.  `Program.LeavesAlone.agreeOn_effect` is the
induction over the program, and `Machine.agreeOn_after` the one over the passes.
-/

namespace SaveRam

theorem Memory.AgreeOn.refl (T : Set Address) (m : Memory) : m.AgreeOn T m := fun _ _ => rfl

theorem Memory.AgreeOn.trans {T : Set Address} {m n k : Memory} (h : m.AgreeOn T n)
    (h' : n.AgreeOn T k) : m.AgreeOn T k :=
  fun a ha => (h a ha).trans (h' a ha)

/-- No instruction of the program has its destination in the set.  Triples that are
not decoded do not count. -/
def Program.LeavesAlone (T : Set Address) (p : Program) : Prop :=
  ∀ t ∈ p, ∀ i, t.decode = .ok i → ∀ a ∈ i.destination?, a ∉ T

variable {T : Set Address}

/-- An instruction with its destination elsewhere keeps a set of bytes, also when it
cannot be carried out. -/
theorem State.agreeOn_execute {i : Instruction Address} (h : ∀ a ∈ i.destination?, a ∉ T)
    (s : State) : (s.execute i).1.memory.AgreeOn T s.memory := by
  rcases s.execute_cases i with ⟨-, j, hj, hexecute⟩ | ⟨-, a, -, hexecute⟩
  · rw [hexecute]
    exact fun a ha => read_apply_of_ne hj (fun hdst => h a hdst ha) s
  · rw [hexecute]
    exact .refl T s.memory

theorem Triple.agreeOn_effect_of_destination {t : Triple}
    (h : ∀ i, t.decode = .ok i → ∀ a ∈ i.destination?, a ∉ T) (s : State) :
    (t.effect s).memory.AgreeOn T s.memory := by
  unfold effect
  cases hdecode : t.decode with
  | error e => exact .refl T s.memory
  | ok i => exact State.agreeOn_execute (h i hdecode) s

namespace Program.LeavesAlone

variable {p : Program}

theorem sound (h : p.LeavesAlone T) : p.sound.LeavesAlone T :=
  fun t ht => h t (List.takeWhile_subset _ ht)

theorem agreeOn_effect (h : p.LeavesAlone T) (s : State) :
    (p.effect s).memory.AgreeOn T s.memory := by
  induction p generalizing s with
  | nil => exact .refl T s.memory
  | cons t p ih =>
    obtain ⟨ht, hp⟩ := List.forall_mem_cons.1 h
    rw [effect_cons]
    exact (ih hp (t.effect s)).trans (Triple.agreeOn_effect_of_destination ht s)

end Program.LeavesAlone

namespace Machine

variable {m : Machine}

/-- A pass, successful or not, keeps what the program leaves alone. -/
theorem agreeOn_next (h : m.program.LeavesAlone T) : m.next.memory.AgreeOn T m.memory := by
  rw [next, pass_eq]
  exact h.sound.agreeOn_effect m.state

theorem agreeOn_after (h : m.program.LeavesAlone T) (n : Nat) :
    (m.after n).memory.AgreeOn T m.memory := by
  induction n generalizing m with
  | zero => exact .refl T m.memory
  | succ n ih =>
    rw [after_succ]
    exact (ih (by rw [next_program]; exact h)).trans (agreeOn_next h)

end Machine

end SaveRam
