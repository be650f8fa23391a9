import Mathlib.Data.Set.Defs
import SaveRam.Proofs.Pass.Effect

/-!
# The footprint of a program

What a pass leaves at some addresses can depend on few others.  A set of
addresses is closed under a program (`Program.Closed`) when nothing flows into
it from outside: a copy or an exclusive or that writes into the set reads from
it, and so does every diff, because a diff moves what it reads into the carried
nibble.

`Machine.AgreeOn` relates two machines with one program that agree on the set
and carry the same nibble.  `Instruction.agreeOn_apply` is the case analysis
over the nine operations; from it, passes of a closed program preserve the
relation, also when they fault (`Machine.AgreeOn.after`).
-/

namespace SaveRam

/-! ## Agreement -/

/-- Two memories answer alike to every address of a set. -/
def Memory.AgreeOn (T : Set Address) (m n : Memory) : Prop := ∀ a ∈ T, m.read a = n.read a

/-- Two states agree on a set of addresses and on the carried nibble. -/
structure State.AgreeOn (T : Set Address) (s t : State) : Prop where
  memory : s.memory.AgreeOn T t.memory
  carried : s.carried = t.carried

/-- Two machines run the same program on states that agree. -/
structure Machine.AgreeOn (T : Set Address) (m n : Machine) : Prop where
  program : m.program = n.program
  state : m.state.AgreeOn T n.state

namespace Memory

/-- Agreement is about the cells of the set; unmapped addresses do not matter. -/
theorem agreeOn_iff {T : Set Address} {m n : Memory} :
    m.AgreeOn T n ↔ ∀ c : Cell, c.address ∈ T → m.get c = n.get c := by
  constructor
  · intro h c hc
    have hread := h c.address hc
    rw [read_address, read_address] at hread
    exact Except.ok.inj hread
  · intro h a ha
    cases hcell : a.cell? with
    | none => rw [read, read, hcell]
    | some c =>
      obtain rfl := Address.cell?_eq_some_iff.1 hcell
      rw [read_address, read_address, h c ha]

/-- Stored bytes only have to agree inside the set. -/
theorem AgreeOn.set {T : Set Address} {m n : Memory} (h : m.AgreeOn T n) {c : Cell}
    {x y : UInt8} (hxy : c.address ∈ T → x = y) : (m.set c x).AgreeOn T (n.set c y) := by
  rw [agreeOn_iff] at h ⊢
  intro d hd
  rw [get_set, get_set]
  split
  · rename_i hcd
    rw [hcd] at hxy
    exact hxy hd
  · exact h d hd

end Memory

/-! ## Closed sets -/

/-- Nothing flows into the set from outside when the instruction is carried
out. -/
def Instruction.Closed {Loc : Type} (T : Set Loc) : Instruction Loc → Prop
  | .diff dst _ => dst ∈ T
  | .xor dst src | .copy dst src => dst ∈ T → src ∈ T
  | _ => True

/-- Nothing flows into the set when the program is run.  Triples that are not
decoded do not count. -/
def Program.Closed (T : Set Address) (p : Program) : Prop :=
  ∀ t ∈ p, ∀ i, t.decode = .ok i → i.Closed T

/-- The addresses of a set as cells. -/
def cellsOf (T : Set Address) : Set Cell := {c | c.address ∈ T}

theorem Instruction.locate_bind {α : Type} {a : Address} {f : Cell → Except Unmapped α} {x : α}
    (h : (locate a >>= f) = .ok x) : ∃ c : Cell, a = c.address ∧ f c = .ok x := by
  unfold locate at h
  cases hcell : a.cell? with
  | none =>
    rw [hcell] at h
    cases h
  | some c =>
    rw [hcell] at h
    exact ⟨c, Address.cell?_eq_some_iff.1 hcell, h⟩

/-- Looking up the places of an instruction keeps it closed. -/
theorem Instruction.Closed.resolve {T : Set Address} {i : Instruction Address}
    {j : Instruction Cell} (h : i.Closed T) (hj : i.resolve = .ok j) :
    j.Closed (cellsOf T) := by
  cases i with
  | init | reset =>
    cases hj
    trivial
  | fill dst | swap dst | reverse dst | bitset dst =>
    obtain ⟨c, -, hc⟩ := locate_bind hj
    cases hc
    trivial
  | diff dst =>
    obtain ⟨c, rfl, hc⟩ := locate_bind hj
    cases hc
    exact h
  | xor dst src | copy dst src =>
    obtain ⟨d, rfl, hd⟩ := locate_bind hj
    obtain ⟨c, rfl, hc⟩ := locate_bind hd
    cases hc
    exact h

/-! ## Passes -/

/-- A closed instruction keeps states in agreement. -/
theorem Instruction.agreeOn_apply {T : Set Address} {i : Instruction Cell}
    (hi : i.Closed (cellsOf T)) {s t : State} (h : s.AgreeOn T t) :
    (i.apply s).AgreeOn T (i.apply t) := by
  obtain ⟨m, carried⟩ := s
  obtain ⟨n, carried'⟩ := t
  obtain ⟨hmemory, hcarried⟩ := h
  dsimp only at hmemory hcarried
  subst hcarried
  have hget := Memory.agreeOn_iff.1 hmemory
  cases i with
  | init | reset => exact ⟨hmemory, rfl⟩
  | fill dst byte => exact ⟨hmemory.set fun _ => rfl, rfl⟩
  | swap dst | reverse dst | bitset dst =>
    exact ⟨hmemory.set fun hdst => by rw [hget dst hdst], rfl⟩
  | copy dst src => exact ⟨hmemory.set fun hdst => hget src (hi hdst), rfl⟩
  | xor dst src =>
    exact ⟨hmemory.set fun hdst => by rw [hget dst hdst, hget src (hi hdst)], rfl⟩
  | diff dst inverted =>
    -- The carried nibble is the code of the byte, so the byte must agree.
    have hbyte := hget dst hi
    unfold Instruction.apply
    dsimp only
    rw [hbyte]
    exact ⟨hmemory.set fun _ => rfl, rfl⟩

/-- A triple that is closed once it is decoded keeps states in agreement, also
when it cannot be carried out. -/
theorem Triple.agreeOn_effect {T : Set Address} {u : Triple}
    (hu : ∀ i, u.decode = .ok i → i.Closed T) {s t : State} (h : s.AgreeOn T t) :
    (u.effect s).AgreeOn T (u.effect t) := by
  unfold Triple.effect State.execute
  cases hdecode : u.decode with
  | error e => exact h
  | ok i =>
    dsimp only
    cases hresolve : i.resolve with
    | error e => exact h
    | ok j => exact Instruction.agreeOn_apply ((hu i hdecode).resolve hresolve) h

/-- A closed program keeps states in agreement. -/
theorem Program.agreeOn_effect {T : Set Address} {p : Program} (hp : p.Closed T) {s t : State}
    (h : s.AgreeOn T t) : (p.effect s).AgreeOn T (p.effect t) := by
  induction p generalizing s t with
  | nil => exact h
  | cons u p ih =>
    obtain ⟨hu, hp⟩ := List.forall_mem_cons.1 hp
    exact ih hp (Triple.agreeOn_effect hu h)

theorem Program.Closed.sound {T : Set Address} {p : Program} (h : p.Closed T) :
    p.sound.Closed T :=
  fun t ht => h t (List.takeWhile_subset _ ht)

namespace Machine.AgreeOn

variable {T : Set Address} {m n : Machine}

/-- A pass of a closed program, successful or not, keeps machines in
agreement. -/
theorem next (h : m.AgreeOn T n) (hclosed : m.program.Closed T) : m.next.AgreeOn T n.next := by
  obtain ⟨hprogram, hstate⟩ := h
  refine ⟨by rw [next_program, next_program, hprogram], ?_⟩
  rw [Machine.next, Machine.next, Machine.pass_eq, Machine.pass_eq, ← hprogram]
  exact Program.agreeOn_effect hclosed.sound hstate

theorem after (h : m.AgreeOn T n) (hclosed : m.program.Closed T) (k : Nat) :
    (m.after k).AgreeOn T (n.after k) := by
  induction k generalizing m n with
  | zero => exact h
  | succ k ih =>
    rw [after_succ, after_succ]
    exact ih (h.next hclosed) (by rw [next_program]; exact hclosed)

end Machine.AgreeOn

end SaveRam
