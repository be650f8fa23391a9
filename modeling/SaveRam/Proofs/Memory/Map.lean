import Mathlib.Logic.Function.Basic
import SaveRam.Window

/-!
# The save memory as a map

A program that uses the save memory makes calls: it stores a byte, replaces one
by its image under a function, loads an image, or takes over another memory.  A
call can be refused, and then the memory stays as it is (`Memory.call`).

`ByteMap` is what the memory is meant to be: a map from addresses to bytes,
without cells, vectors or windows, and with the same calls on it
(`ByteMap.call`).  `Memory.map` forgets how a memory is stored.

`Memory.call_map` is the step: a call on the map of a memory gives the map of
the memory after the call, and is refused in the same way.
`Memory.Call.run_map` follows from it for a run of calls.  `Memory.Shows` says
that all ways to look at a memory - by address, as one image, through the
window and through its digested part - show the bytes of one map, and
`Memory.shows_map` that a memory shows those of its own map, so this is so after every
run.
-/

namespace SaveRam

/-! ## Mapped addresses -/

/-- An address in the range of the save memory. -/
def Address.Mapped (a : Address) : Prop := 0xA000 ≤ a.toNat ∧ a.toNat ≤ 0xBFFF

instance (a : Address) : Decidable a.Mapped := inferInstanceAs (Decidable (_ ∧ _))

/-- Exactly the addresses out of range select no cell. -/
theorem Address.cell?_eq_none_iff {a : Address} : a.cell? = none ↔ ¬ a.Mapped := by
  unfold cell? Mapped
  split
  · simp only [reduceCtorEq, false_iff]
    omega
  · simp only [true_iff]
    omega

theorem Cell.mapped_address (c : Cell) : c.address.Mapped := by
  have hc := c.isLt
  unfold Address.Mapped
  rw [toNat_address]
  omega

/-- An address in range belongs to a cell; any other selects none. -/
theorem Address.cell_cases (a : Address) :
    (∃ c : Cell, a = c.address) ∨ a.cell? = none ∧ ¬ a.Mapped := by
  cases hcell : a.cell? with
  | some c => exact .inl ⟨c, cell?_eq_some_iff.1 hcell⟩
  | none => exact .inr ⟨rfl, cell?_eq_none_iff.1 hcell⟩

/-! ## Calls -/

/-- A call that is meant to change a memory. -/
inductive Memory.Call where
  /-- Stores a byte. -/
  | write (a : Address) (byte : UInt8)
  /-- Replaces a byte by its image under a function. -/
  | update (a : Address) (f : UInt8 → UInt8)
  /-- Replaces the whole content by an image of the right size. -/
  | load (image : List UInt8)
  /-- Takes over the content of another memory. -/
  | copy (other : Memory)

/-- Why a call was refused. -/
inductive Memory.Refusal where
  | unmapped (cause : Unmapped)
  | wrongSize (cause : WrongSize)
deriving DecidableEq

namespace Memory

/-- The memory after an access, which is the old one if the access failed. -/
def settle {ε : Type} (m : Memory) (wrap : ε → Refusal) : Except ε Memory → Memory × Option Refusal
  | .ok m' => (m', none)
  | .error e => (m, some (wrap e))

/-- Carries out a call, or refuses it and leaves the memory as it is. -/
def call (m : Memory) : Call → Memory × Option Refusal
  | .write a byte => m.settle .unmapped (m.write a byte)
  | .update a f => m.settle .unmapped (m.update a f)
  | .load image => m.settle .wrongSize (load image)
  | .copy other => (other, none)

/-- Carries out calls one after the other and collects their answers. -/
def Call.run {σ : Type} (step : σ → Call → σ × Option Refusal) :
    σ → List Call → σ × List (Option Refusal)
  | s, [] => (s, [])
  | s, c :: cs =>
    match step s c with
    | (s, answer) =>
      match run step s cs with
      | (s, answers) => (s, answer :: answers)

/-- Calls that a translation of states turns into each other give the same
answers in a run and end in states that it turns into each other. -/
theorem Call.run_comm {σ τ : Type} {step : σ → Call → σ × Option Refusal}
    {step' : τ → Call → τ × Option Refusal} {f : σ → τ}
    (h : ∀ s c, step' (f s) c = (f (step s c).1, (step s c).2)) (s : σ) (cs : List Call) :
    run step' (f s) cs = (f (run step s cs).1, (run step s cs).2) := by
  induction cs generalizing s with
  | nil => rfl
  | cons c cs ih =>
    rw [run, h]
    dsimp only
    rw [ih]
    rfl

end Memory

/-! ## The map -/

/-- The bytes at some addresses. -/
abbrev ByteMap := Address → Option UInt8

namespace ByteMap

/-- The map of an image that starts at the first mapped address.  Addresses past
the end of the image hold zero. -/
def ofImage (image : List UInt8) : ByteMap :=
  fun a => if a.Mapped then some (image.getD (a.toNat - 0xA000) 0) else none

/-- What a call does to the map, and its answer. -/
def call (map : ByteMap) : Memory.Call → ByteMap × Option Memory.Refusal
  | .write a byte =>
    if a.Mapped then (Function.update map a (some byte), none)
    else (map, some (.unmapped ⟨a⟩))
  | .update a f =>
    match map a with
    | some byte => (Function.update map a (some (f byte)), none)
    | none => (map, some (.unmapped ⟨a⟩))
  | .load image =>
    if image.length = 0x2000 then (ofImage image, none)
    else (map, some (.wrongSize ⟨image.length⟩))
  | .copy other => (ofImage other.toBytes, none)

end ByteMap

namespace Memory

/-- The map that a memory stands for. -/
def map (m : Memory) : ByteMap := fun a => a.cell?.map m.get

@[simp] theorem map_address (m : Memory) (c : Cell) : m.map c.address = some (m.get c) := by
  rw [map, Cell.cell?_address, Option.map_some]

theorem map_of_not_mapped (m : Memory) {a : Address} (h : ¬ a.Mapped) : m.map a = none := by
  rw [map, Address.cell?_eq_none_iff.2 h, Option.map_none]

/-- Exactly the mapped addresses hold a byte. -/
theorem isSome_map_iff (m : Memory) (a : Address) : (m.map a).isSome ↔ a.Mapped := by
  rw [map, Option.isSome_map, ← Option.not_isNone, Bool.not_eq_true', ← Bool.not_eq_true,
    Option.isNone_iff_eq_none, Address.cell?_eq_none_iff, Decidable.not_not]

/-- Reading asks the map. -/
theorem read_eq (m : Memory) (a : Address) :
    m.read a =
      match m.map a with
      | some byte => .ok byte
      | none => .error ⟨a⟩ := by
  rcases a.cell_cases with ⟨c, rfl⟩ | ⟨hcell, hunmapped⟩
  · rw [map_address, read, Cell.cell?_address]
  · rw [map_of_not_mapped m hunmapped, read, hcell]

/-- Exactly the mapped addresses can be read. -/
theorem exists_read_iff {m : Memory} {a : Address} : (∃ byte, m.read a = .ok byte) ↔ a.Mapped := by
  rw [← isSome_map_iff m, read_eq]
  cases m.map a <;> simp

/-- Storing a byte changes the map at one address. -/
theorem map_set (m : Memory) (c : Cell) (byte : UInt8) :
    (m.set c byte).map = Function.update m.map c.address (some byte) := by
  funext a
  rcases a.cell_cases with ⟨d, rfl⟩ | ⟨-, hunmapped⟩
  · by_cases hdc : d = c
    · subst hdc
      rw [map_address, get_set_self, Function.update_self]
    · have haddress : d.address ≠ c.address := by
        intro h
        have hcell : c.address.cell? = some d := Address.cell?_eq_some_iff.2 h.symm
        rw [Cell.cell?_address] at hcell
        exact hdc (Option.some.inj hcell).symm
      rw [map_address, get_set, if_neg (Ne.symm hdc), Function.update_of_ne haddress, map_address]
  · have haddress : a ≠ c.address := fun h => hunmapped (h ▸ c.mapped_address)
    rw [map_of_not_mapped _ hunmapped, Function.update_of_ne haddress,
      map_of_not_mapped m hunmapped]

/-- A memory made of an image stands for the map of the image. -/
theorem map_ofBytes (image : List UInt8) : (ofBytes image).map = ByteMap.ofImage image := by
  funext a
  unfold ByteMap.ofImage
  rcases a.cell_cases with ⟨c, rfl⟩ | ⟨-, hunmapped⟩
  · rw [map_address, get_ofBytes, if_pos c.mapped_address, Cell.toNat_address,
      Nat.add_sub_cancel_left]
  · rw [map_of_not_mapped _ hunmapped, if_neg hunmapped]

/-- The image of a memory has the map of the memory. -/
theorem ofImage_toBytes (m : Memory) : ByteMap.ofImage m.toBytes = m.map := by
  rw [← map_ofBytes, ofBytes_toBytes]

/-! ## Calls on the memory and on the map -/

/-- A call does to the map of a memory what it does to the memory, and has the
same answer. -/
theorem call_map (m : Memory) (c : Call) : m.map.call c = ((m.call c).1.map, (m.call c).2) := by
  cases c with
  | write a byte =>
    unfold ByteMap.call call write
    dsimp only
    rcases a.cell_cases with ⟨c, rfl⟩ | ⟨hcell, hunmapped⟩
    · rw [if_pos c.mapped_address, Cell.cell?_address]
      dsimp only [settle]
      rw [map_set]
    · rw [if_neg hunmapped, hcell]
      rfl
  | update a f =>
    unfold ByteMap.call call update
    dsimp only
    rcases a.cell_cases with ⟨c, rfl⟩ | ⟨hcell, hunmapped⟩
    · rw [map_address, Cell.cell?_address]
      dsimp only [settle]
      rw [map_set]
    · rw [map_of_not_mapped m hunmapped, hcell]
      rfl
  | load image =>
    unfold ByteMap.call call load
    dsimp only
    split
    · dsimp only [settle]
      rw [map_ofBytes]
    · rfl
  | copy other =>
    unfold ByteMap.call call
    dsimp only
    rw [ofImage_toBytes]

/-- A run of calls does to the map of a memory what it does to the memory. -/
theorem Call.run_map (m : Memory) (cs : List Call) :
    run ByteMap.call m.map cs = ((run call m cs).1.map, (run call m cs).2) :=
  run_comm call_map m cs

/-! ## What a call leaves alone -/

/-- The address that a call works on, if it works on a single one. -/
def Call.address? : Call → Option Address
  | .write a _ | .update a _ => some a
  | .load _ | .copy _ => none

/-- Unmapped addresses are refused. -/
theorem call_of_unmapped (m : Memory) {c : Call} {a : Address} (hc : c.address? = some a)
    (ha : ¬ a.Mapped) : m.call c = (m, some (.unmapped ⟨a⟩)) := by
  have hcell := Address.cell?_eq_none_iff.2 ha
  cases c with
  | write =>
    cases hc
    simp only [call, Memory.write, hcell, settle]
  | update =>
    cases hc
    simp only [call, Memory.update, hcell, settle]
  | load | copy => cases hc

/-- Images of another size are refused. -/
theorem call_load_of_length_ne (m : Memory) {image : List UInt8} (h : image.length ≠ 0x2000) :
    m.call (.load image) = (m, some (.wrongSize ⟨image.length⟩)) := by
  simp only [call, Memory.load, if_neg h, settle]

/-- A call on one address leaves the map alone everywhere else. -/
theorem map_call_of_ne (map : ByteMap) {c : Call} {a b : Address} (hc : c.address? = some b)
    (hab : a ≠ b) : (map.call c).1 a = map a := by
  cases c with
  | write =>
    cases hc
    unfold ByteMap.call
    dsimp only
    split
    · exact Function.update_of_ne hab _ _
    · rfl
  | update =>
    cases hc
    unfold ByteMap.call
    dsimp only
    split
    · exact Function.update_of_ne hab _ _
    · rfl
  | load | copy => cases hc

/-- A call on one address is not seen at any other. -/
theorem read_call_of_ne (m : Memory) {c : Call} {a b : Address} (hc : c.address? = some b)
    (hab : a ≠ b) : (m.call c).1.read a = m.read a := by
  have hmap : (m.call c).1.map a = m.map a := by
    rw [← map_call_of_ne m.map hc hab, call_map]
  rw [read_eq, read_eq, hmap]

/-! ## Ways to look at a memory -/

/-- All ways to look at a memory show the bytes of a map. -/
structure Shows (m : Memory) (map : ByteMap) : Prop where
  /-- Exactly the mapped addresses hold a byte. -/
  mapped : ∀ a, (map a).isSome ↔ a.Mapped
  /-- The byte at an address, or the address if it holds none. -/
  read : ∀ a, m.read a =
    match map a with
    | some byte => .ok byte
    | none => .error ⟨a⟩
  /-- The whole image. -/
  bytes : m.toBytes.length = 0x2000 ∧
    ∀ (i : Nat) (hi : i < m.toBytes.length),
      m.read (UInt16.ofNat (0xA000 + i)) = .ok m.toBytes[i]
  /-- The window. -/
  window : ∀ (k : Nat) (hk : k < 16), m.read (UInt16.ofNat (0xA7D0 + k)) = .ok m.window[k]
  /-- The part of the window that is digested. -/
  digested : m.window.digested.length = 10 ∧
    ∀ (k : Nat) (hk : k < m.window.digested.length),
      m.read (UInt16.ofNat (0xA7D0 + k)) = .ok m.window.digested[k]

theorem read_window (m : Memory) (k : Nat) (hk : k < 16) :
    m.read (UInt16.ofNat (0xA7D0 + k)) = .ok m.window[k] := by
  have haddress : UInt16.ofNat (0xA7D0 + k) = (Window.cell ⟨k, hk⟩).address := by
    rw [Cell.address, Window.cell]
    congr 1
    show 0xA7D0 + k = 0xA000 + (0x7D0 + k)
    omega
  rw [haddress, read_address, Memory.window, Vector.getElem_ofFn]

theorem length_digested (w : Window) : w.digested.length = 10 := by
  rw [Window.digested, List.length_take, Vector.length_toList]
  rfl

/-- A memory shows the map that it stands for. -/
theorem shows_map (m : Memory) : m.Shows m.map where
  mapped := m.isSome_map_iff
  read := m.read_eq
  bytes := by
    refine ⟨m.length_toBytes, fun i hi => ?_⟩
    have hcell : i < 0x2000 := by
      rw [← m.length_toBytes]
      exact hi
    show m.read (Cell.address ⟨i, hcell⟩) = _
    rw [read_address, ← getD_toBytes, List.getD_eq_getElem?_getD, List.getElem?_eq_getElem hi,
      Option.getD_some]
  window := m.read_window
  digested := by
    refine ⟨length_digested m.window, fun k hk => ?_⟩
    have hten : k < 10 := by
      rw [← length_digested m.window]
      exact hk
    rw [m.read_window k (by omega)]
    simp only [Window.digested, List.getElem_take, Vector.getElem_toList]

/-! ## Runs -/

/-- How a memory is made. -/
inductive Origin where
  | blank
  | bytes (image : List UInt8)

/-- The memory as it is made. -/
def Origin.memory : Origin → Memory
  | .blank => .blank
  | .bytes image => .ofBytes image

/-- The map as it is made: zeros, or the bytes of an image. -/
def Origin.map : Origin → ByteMap
  | .blank => fun a => if a.Mapped then some 0 else none
  | .bytes image => .ofImage image

theorem Origin.map_memory (o : Origin) : o.memory.map = o.map := by
  cases o with
  | bytes image => exact map_ofBytes image
  | blank =>
    funext a
    show Memory.blank.map a = if a.Mapped then some 0 else none
    rcases a.cell_cases with ⟨c, rfl⟩ | ⟨-, hunmapped⟩
    · rw [map_address, if_pos c.mapped_address]
      simp [get, Memory.blank]
    · rw [map_of_not_mapped _ hunmapped, if_neg hunmapped]

/-- After every run of calls, successful and refused ones, the memory has
answered as the map does and shows the bytes of the map.  Refused calls leave it
as it is, and a stored byte is seen at its own address only. -/
theorem Call.run_refines_map (o : Origin) (cs : List Call) :
    let r := run call o.memory cs
    let expected := run ByteMap.call o.map cs
    (r.2 = expected.2 ∧ r.1.Shows expected.1) ∧
    (∀ a, ¬ a.Mapped → ∀ byte f,
      r.1.call (.write a byte) = (r.1, some (.unmapped ⟨a⟩)) ∧
      r.1.call (.update a f) = (r.1, some (.unmapped ⟨a⟩))) ∧
    (∀ image, image.length ≠ 0x2000 →
      r.1.call (.load image) = (r.1, some (.wrongSize ⟨image.length⟩))) ∧
    ∀ a b, a ≠ b → ∀ byte f,
      (r.1.call (.write b byte)).1.read a = r.1.read a ∧
      (r.1.call (.update b f)).1.read a = r.1.read a := by
  intro r expected
  have hrun : expected = (r.1.map, r.2) := by
    show run ByteMap.call o.map cs = _
    rw [← o.map_memory, run_map]
  refine ⟨?_, fun a ha byte f => ⟨?_, ?_⟩, fun image hlength => ?_, fun a b hab byte f => ⟨?_, ?_⟩⟩
  · rw [hrun]
    exact ⟨rfl, r.1.shows_map⟩
  · exact call_of_unmapped r.1 rfl ha
  · exact call_of_unmapped r.1 rfl ha
  · exact call_load_of_length_ne r.1 hlength
  · exact read_call_of_ne r.1 rfl hab
  · exact read_call_of_ne r.1 rfl hab

/-- Five calls on a memory made of two bytes; three are refused. -/
theorem Call.run_refines_map_refusals :
    let cs : List Call :=
      [.write 0xA7D0 0xD2, .write 0xC000 1, .update 0xA7D0 (· ||| 1), .load [1, 2, 3],
        .update 0x9FFF id]
    let r := run call (Origin.bytes [7, 9]).memory cs
    r.2 = [none, some (.unmapped ⟨0xC000⟩), none, some (.wrongSize ⟨3⟩),
      some (.unmapped ⟨0x9FFF⟩)] ∧
    (r.1.read 0xA001 = .ok 9 ∧ r.1.read 0xA7D0 = .ok 0xD3 ∧ r.1.read 0xC000 = .error ⟨0xC000⟩) ∧
    (r.1.call (.update 0xC000 id)).1 = r.1 ∧
    r.1.call (.load []) = (r.1, some (.wrongSize ⟨0⟩)) ∧
    (r.1.call (.write 0xA7D0 0)).1.read 0xA001 = .ok 9 := by
  intro cs r
  obtain ⟨⟨hanswers, hshows⟩, hunmapped, hlength, hother⟩ := run_refines_map (.bytes [7, 9]) cs
  have hexpected : (run ByteMap.call (Origin.bytes [7, 9]).map cs).2 =
      [none, some (.unmapped ⟨0xC000⟩), none, some (.wrongSize ⟨3⟩),
        some (.unmapped ⟨0x9FFF⟩)] := by decide
  have hfar : (run ByteMap.call (Origin.bytes [7, 9]).map cs).1 0xA001 = some 9 := by decide
  have hnear : (run ByteMap.call (Origin.bytes [7, 9]).map cs).1 0xA7D0 = some 0xD3 := by decide
  have hout : (run ByteMap.call (Origin.bytes [7, 9]).map cs).1 0xC000 = none := by decide
  have hread : r.1.read 0xA001 = .ok 9 := by rw [hshows.read, hfar]
  refine ⟨hanswers.trans hexpected, ⟨hread, ?_, ?_⟩, ?_, hlength [] (by decide), ?_⟩
  · rw [hshows.read, hnear]
  · rw [hshows.read, hout]
  · rw [(hunmapped 0xC000 (by decide) 0 id).2]
  · rw [(hother 0xA001 0xA7D0 (by decide) 0 id).1]
    exact hread

end Memory

end SaveRam
