import SaveRam.Memory
import SaveRam.Opcode

/-!
# Instructions

`Instruction Loc` is an operation with its operands, where `Loc` says how a
place in memory is named.  Programs name places by processor addresses; an
instruction can be carried out once these are resolved to cells.
`Instruction.resolve` does that and fails at the first unmapped address, the
source before the destination.
-/

namespace SaveRam

/-- An operation with its operands. -/
inductive Instruction (Loc : Type) where
  | init
  | fill (dst : Loc) (byte : UInt8)
  | swap (dst : Loc)
  | diff (dst : Loc) (inverted : Bool)
  | reverse (dst : Loc)
  | xor (dst src : Loc)
  | copy (dst src : Loc)
  | bitset (dst : Loc) (mask : UInt8)
  | reset
deriving DecidableEq

namespace Instruction

variable {Loc : Type}

/-- The operation without its operands. -/
def opcode : Instruction Loc → Opcode
  | .init => .init
  | .fill .. => .fill
  | .swap .. => .swap
  | .diff .. => .diff
  | .reverse .. => .reverse
  | .xor .. => .xor
  | .copy .. => .copy
  | .bitset .. => .bitset
  | .reset => .reset

/-- The place that the instruction writes. -/
def destination? : Instruction Loc → Option Loc
  | .init | .reset => none
  | .fill dst _ | .swap dst | .diff dst _ | .reverse dst
  | .xor dst _ | .copy dst _ | .bitset dst _ => some dst

/-- The place that the instruction reads beside its destination. -/
def source? : Instruction Loc → Option Loc
  | .xor _ src | .copy _ src => some src
  | _ => none

/-- The cell at an address, or the access error of that address. -/
def locate (a : Address) : Except Unmapped Cell :=
  match a.cell? with
  | some c => .ok c
  | none => .error ⟨a⟩

/-- Replaces all addresses by the cells they select.  The source is looked up
before the destination. -/
def resolve : Instruction Address → Except Unmapped (Instruction Cell)
  | .init => .ok .init
  | .fill dst byte => do return .fill (← locate dst) byte
  | .swap dst => do return .swap (← locate dst)
  | .diff dst inverted => do return .diff (← locate dst) inverted
  | .reverse dst => do return .reverse (← locate dst)
  | .xor dst src => do
    let src ← locate src
    let dst ← locate dst
    return .xor dst src
  | .copy dst src => do
    let src ← locate src
    let dst ← locate dst
    return .copy dst src
  | .bitset dst mask => do return .bitset (← locate dst) mask
  | .reset => .ok .reset

end Instruction

end SaveRam
