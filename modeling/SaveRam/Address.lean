/-!
# Cartridge addresses

The save memory of a cartridge is 8 KiB large and answers to the processor's
addresses `0xA000` to `0xBFFF`.  Inside the memory a byte has a *cell* number
between 0 and 8191.  `Address.cell?` goes from the first numbering to the
second and fails outside the range; `Cell.address` goes back.
-/

namespace SaveRam

/-- An address as the processor writes it. -/
abbrev Address := UInt16

/-- The place of a byte inside the save memory. -/
abbrev Cell := Fin 0x2000

/-- The processor address of a cell. -/
def Cell.address (c : Cell) : Address := UInt16.ofNat (0xA000 + c.val)

/-- The cell that an address selects, if the save memory answers to it. -/
def Address.cell? (a : Address) : Option Cell :=
  if h : 0xA000 ≤ a.toNat ∧ a.toNat < 0xC000 then
    some ⟨a.toNat - 0xA000, by omega⟩
  else
    none

/-- The cells lie in order behind the first mapped address. -/
theorem Cell.toNat_address (c : Cell) : c.address.toNat = 0xA000 + c.val := by
  have hc := c.isLt
  simp only [Cell.address, UInt16.toNat_ofNat']
  omega

/-- An address reaches a cell exactly when it is the address of that cell. -/
theorem Address.cell?_eq_some_iff {a : Address} {c : Cell} :
    a.cell? = some c ↔ a = c.address := by
  have hc := c.isLt
  rw [← UInt16.toNat_inj, Cell.toNat_address]
  simp only [Address.cell?]
  split
  · simp only [Option.some.injEq, Fin.ext_iff]
    omega
  · simp only [reduceCtorEq, false_iff]
    omega

/-- Every cell is reached through its own address. -/
@[simp] theorem Cell.cell?_address (c : Cell) : c.address.cell? = some c :=
  Address.cell?_eq_some_iff.2 rfl

end SaveRam
