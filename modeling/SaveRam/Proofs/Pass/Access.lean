import SaveRam.State

/-!
# Instructions access by access

`State.execute` looks up the places of an instruction first and then applies it to
cells.  `Instruction.accesses` is the same instruction as a sequence of reads and
writes, each of which looks up its own address and fails if that is unmapped: the
source is read before the destination is touched, and what was changed before a
failing access stays changed.

The two agree (`State.run_accesses`).  So nothing is changed before the last look-up
of an instruction, and its errors are those of `Memory.read`, `Memory.write` and
`Memory.update` in the order of the accesses.
-/

namespace SaveRam

/-- A sequence of accesses to a state.  It ends well or with an error, and either way
in the state that the accesses so far have left. -/
abbrev Access := EStateM Unmapped State

namespace Access

/-- The byte at an address. -/
def read (a : Address) : Access UInt8 := do
  match (← get).memory.read a with
  | .ok byte => return byte
  | .error e => throw e

/-- Changes the memory, or leaves it alone and fails. -/
def change (f : Memory → Except Unmapped Memory) : Access Unit := do
  match f (← get).memory with
  | .ok memory => modify fun s => { s with memory }
  | .error e => throw e

/-- Stores a byte at an address. -/
def write (a : Address) (byte : UInt8) : Access Unit := change fun m => m.write a byte

/-- Replaces the byte at an address by its image under `f`. -/
def update (a : Address) (f : UInt8 → UInt8) : Access Unit := change fun m => m.update a f

/-- Exchanges the carried nibble. -/
def carry (carried : Nibble) : Access Unit := modify fun s => { s with carried }

/-- Replaces the byte at an address by its code and the carried nibble by the one that
the code leaves. -/
def encode (inverted : Bool) (a : Address) : Access Unit := do
  let byte ← read a
  let (code, carried) := DiffCode.byte inverted (← get).carried byte
  carry carried
  write a code

end Access

/-- The accesses of an instruction in their order. -/
def Instruction.accesses : Instruction Address → Access Unit
  | .init | .reset => Access.carry 0
  | .fill dst byte => Access.write dst byte
  | .swap dst => Access.update dst swapNibbles
  | .diff dst inverted => Access.encode inverted dst
  | .reverse dst => Access.update dst reverseNibbles
  | .xor dst src => do
    let byte ← Access.read src
    Access.update dst fun b => b ^^^ byte
  | .copy dst src => do
    let byte ← Access.read src
    Access.write dst byte
  | .bitset dst mask => Access.update dst fun b => b ||| mask

/-! ## Single accesses -/

namespace Access

variable (a : Address) (s : State)

theorem run_read :
    (read a).run s =
      match Instruction.locate a with
      | .ok c => .ok (s.memory.get c) s
      | .error e => .error e s := by
  simp only [read, Memory.read, Instruction.locate]
  cases a.cell? <;> rfl

theorem run_write (byte : UInt8) :
    (write a byte).run s =
      match Instruction.locate a with
      | .ok c => .ok () { s with memory := s.memory.set c byte }
      | .error e => .error e s := by
  simp only [write, change, Memory.write, Instruction.locate]
  cases a.cell? <;> rfl

theorem run_update (f : UInt8 → UInt8) :
    (update a f).run s =
      match Instruction.locate a with
      | .ok c => .ok () { s with memory := s.memory.set c (f (s.memory.get c)) }
      | .error e => .error e s := by
  simp only [update, change, Memory.update, Instruction.locate]
  cases a.cell? <;> rfl

/-- One access after another. -/
theorem run_bind {α β : Type} (x : Access α) (k : α → Access β) :
    (x >>= k).run s =
      match x.run s with
      | .ok value s => (k value).run s
      | .error e s => .error e s := by
  show EStateM.bind x k s = _
  unfold EStateM.bind EStateM.run
  cases x s <;> rfl

/-- The nibble is exchanged only where the byte can be written. -/
theorem run_encode (inverted : Bool) :
    (encode inverted a).run s =
      match Instruction.locate a with
      | .ok c => .ok () ((Instruction.diff c inverted).apply s)
      | .error e => .error e s := by
  rw [encode, run_bind, run_read]
  cases h : Instruction.locate a with
  | error e => rfl
  | ok c =>
    show (write a _).run { s with carried := _ } = _
    rw [run_write, h]
    rfl

end Access

/-! ## Whole instructions -/

/-- Carried out access by access, an instruction does what it does at once: it ends in
the same state and with the same error. -/
theorem State.run_accesses (s : State) (i : Instruction Address) :
    i.accesses.run s =
      match s.execute i with
      | (s, none) => .ok () s
      | (s, some e) => .error e s := by
  unfold execute
  cases i with
  | init | reset => rfl
  | fill dst | swap dst | reverse dst | bitset dst =>
    simp only [Instruction.accesses, Access.run_write, Access.run_update, Instruction.resolve]
    cases Instruction.locate dst <;> rfl
  | diff dst inverted =>
    simp only [Instruction.accesses, Access.run_encode, Instruction.resolve]
    cases Instruction.locate dst <;> rfl
  | xor dst src | copy dst src =>
    -- The source is read first, so its error comes first.
    simp only [Instruction.accesses, Access.run_bind, Access.run_read, Instruction.resolve]
    cases Instruction.locate src with
    | error e => rfl
    | ok c =>
      simp only [Access.run_write, Access.run_update]
      cases Instruction.locate dst <;> rfl

end SaveRam
