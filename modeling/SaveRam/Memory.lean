import SaveRam.Address

/-!
# The save memory

`Memory` is the 8 KiB image itself.  `get` and `set` work on cells and cannot
fail.  `read`, `write` and `update` take a processor address and fail outside
the mapped range; `load` replaces the whole image and wants exactly 8192 bytes,
while `ofBytes` accepts any number of bytes, filling up with zeros and dropping
what is too much.
-/

namespace SaveRam

/-- An access to an address that the save memory does not answer to. -/
structure Unmapped where
  address : Address
deriving DecidableEq

/-- An image that does not have the size of the save memory. -/
structure WrongSize where
  found : Nat
deriving DecidableEq

/-- The 8192 bytes of the save memory, in cell order. -/
structure Memory where
  cells : Vector UInt8 0x2000
deriving DecidableEq

namespace Memory

/-- Memory as it is before anything was written: all zero. -/
def blank : Memory := ⟨Vector.replicate 0x2000 0⟩

instance : Inhabited Memory := ⟨blank⟩

/-- The image that starts with the given bytes.  Missing bytes are zero, bytes
past the end of the memory are dropped. -/
def ofBytes (bytes : List UInt8) : Memory :=
  ⟨⟨(bytes.take 0x2000 ++ List.replicate (0x2000 - bytes.length) 0).toArray, by
    simp only [List.size_toArray, List.length_append, List.length_take, List.length_replicate]
    omega⟩⟩

/-- All bytes in cell order. -/
def toBytes (m : Memory) : List UInt8 := m.cells.toList

/-- The byte in a cell. -/
def get (m : Memory) (c : Cell) : UInt8 := m.cells[c]

/-- Puts a byte into a cell. -/
def set (m : Memory) (c : Cell) (byte : UInt8) : Memory := ⟨m.cells.set c byte⟩

/-- The byte at a processor address. -/
def read (m : Memory) (a : Address) : Except Unmapped UInt8 :=
  match a.cell? with
  | some c => .ok (m.get c)
  | none => .error ⟨a⟩

/-- Stores a byte at a processor address. -/
def write (m : Memory) (a : Address) (byte : UInt8) : Except Unmapped Memory :=
  match a.cell? with
  | some c => .ok (m.set c byte)
  | none => .error ⟨a⟩

/-- Replaces the byte at a processor address by its image under `f`. -/
def update (m : Memory) (a : Address) (f : UInt8 → UInt8) : Except Unmapped Memory :=
  match a.cell? with
  | some c => .ok (m.set c (f (m.get c)))
  | none => .error ⟨a⟩

/-- The memory whose content is exactly the given image. -/
def load (image : List UInt8) : Except WrongSize Memory :=
  if image.length = 0x2000 then .ok (ofBytes image) else .error ⟨image.length⟩

/-! ## Cells after an operation -/

/-- Reading at the address of a cell gives its byte. -/
theorem read_address (m : Memory) (c : Cell) : m.read c.address = .ok (m.get c) := by
  rw [read, Cell.cell?_address]

/-- A changed cell holds the new byte and every other cell what it held. -/
theorem get_set (m : Memory) (c d : Cell) (byte : UInt8) :
    (m.set c byte).get d = if c = d then byte else m.get d := by
  simp [get, set, Vector.getElem_set, Fin.ext_iff]

/-- Memories with the same bytes are the same. -/
@[ext] theorem ext {m n : Memory} (h : ∀ c, m.get c = n.get c) : m = n := by
  cases m with | mk a =>
  cases n with | mk b =>
  congr 1
  apply Vector.ext
  intro i hi
  exact h ⟨i, hi⟩

@[simp] theorem get_set_self (m : Memory) (c : Cell) (byte : UInt8) :
    (m.set c byte).get c = byte := by
  rw [get_set, if_pos rfl]

@[simp] theorem set_set (m : Memory) (c : Cell) (x y : UInt8) :
    (m.set c x).set c y = m.set c y := by
  ext d
  simp only [get_set]
  split <;> rfl

/-- An image has one byte for each cell. -/
@[simp] theorem length_toBytes (m : Memory) : m.toBytes.length = 0x2000 := by
  simp [toBytes]

/-- An image has the bytes of the cells in order. -/
theorem getD_toBytes (m : Memory) (c : Cell) : m.toBytes.getD c 0 = m.get c := by
  simp [toBytes, get]

/-- Loading an image cuts it off at the end of the memory or fills it up with zeros. -/
theorem toBytes_ofBytes (bytes : List UInt8) :
    (ofBytes bytes).toBytes =
      bytes.take 0x2000 ++ List.replicate (0x2000 - bytes.length) 0 := by
  simp only [ofBytes, toBytes, Vector.toList_mk]

/-- A cell of an image holds the image's byte, or zero past its end. -/
theorem get_ofBytes (bytes : List UInt8) (c : Cell) :
    (ofBytes bytes).get c = bytes.getD c 0 := by
  have hc := c.isLt
  rw [← getD_toBytes, toBytes_ofBytes, List.getD_eq_getElem?_getD, List.getD_eq_getElem?_getD,
    List.getElem?_append, List.length_take]
  split
  · next h => rw [List.getElem?_take_of_lt hc]
  · next h =>
    have hlen : bytes.length ≤ c.val := by omega
    rw [List.getElem?_replicate, List.getElem?_eq_none hlen]
    split <;> rfl

/-- Bytes past the end of the memory may be dropped before loading. -/
theorem ofBytes_take (bytes : List UInt8) : ofBytes (bytes.take 0x2000) = ofBytes bytes := by
  ext c
  have hc := c.isLt
  rw [get_ofBytes, get_ofBytes, List.getD_eq_getElem?_getD, List.getD_eq_getElem?_getD,
    List.getElem?_take_of_lt hc]

/-- A memory survives being written to an image and loaded from it. -/
@[simp] theorem ofBytes_toBytes (m : Memory) : ofBytes m.toBytes = m := by
  ext c
  rw [get_ofBytes, getD_toBytes]

end Memory

end SaveRam
