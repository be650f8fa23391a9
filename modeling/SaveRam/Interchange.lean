import SaveRam.Report
import SaveRam.Triple

/-!
# The interchange form

Operations, instructions, triples and matches have a form in which other
programs can store them: a `Value` made of numbers, texts, lists and records.
`toValue` writes the form.  `ofValue?` reads it and is strict about names and
ranges: every field must be there and fit its type.  A record may have fields
that are not asked for.  An alternative without fields is written as its name,
one with fields as a record of one field; a triple or a match may also be a list
of its fields in order.
-/

namespace SaveRam

/-- Structured data without a fixed shape. -/
inductive Value where
  | null
  | bool (b : Bool)
  | int (n : Int)
  /-- A number that is not written as an integer. -/
  | fraction
  | text (s : String)
  | list (values : List Value)
  | record (fields : List (String × Value))
deriving Inhabited

namespace Value

/-- A natural number below a bound. -/
def below? (bound : Nat) : Value → Option Nat
  | .int n => if 0 ≤ n ∧ n < bound then some n.toNat else none
  | _ => none

/-- An unsigned 16-bit number. -/
def word? (v : Value) : Option UInt16 := (v.below? UInt16.size).map Nat.toUInt16

/-- An unsigned 8-bit number. -/
def byte? (v : Value) : Option UInt8 := (v.below? UInt8.size).map Nat.toUInt8

/-- A truth value; no number or text counts as one. -/
def bool? : Value → Option Bool
  | .bool b => some b
  | _ => none

/-- A signed 64-bit number. -/
def long? : Value → Option Int64
  | .int n =>
    if Int64.minValue.toInt ≤ n ∧ n ≤ Int64.maxValue.toInt then some (Int64.ofInt n) else none
  | _ => none

/-- The value of a field. -/
def field? (name : String) : Value → Option Value
  | .record fields => fields.lookup name
  | _ => none

/-- The name of an alternative and its content, which is absent when only the
name is given. -/
def alternative? : Value → Option (String × Option Value)
  | .text name => some (name, none)
  | .record [(name, content)] => some (name, some content)
  | _ => none

/-- Whether the content of an alternative is that of one without fields. -/
def isBare : Option Value → Bool
  | none | some .null => true
  | _ => false

/-- The fields with the given names, from a record or from a list of exactly
that many values. -/
def fields? (names : List String) : Value → Option (List Value)
  | .list values => if values.length = names.length then some values else none
  | v => names.mapM v.field?

/-- A natural number. -/
def ofNat (n : Nat) : Value := .int n

end Value

/-! ## Operations -/

namespace Opcode

/-- The name of an operation in the interchange form. -/
def longName : Opcode → String
  | .init => "Init"
  | .fill => "Fill"
  | .swap => "SwapNibbles"
  | .diff => "DiffEncode"
  | .reverse => "NibbleReverse"
  | .xor => "XorAddr"
  | .copy => "CopyAddr"
  | .bitset => "Bitset"
  | .reset => "ResetLastResult"

/-- All operations in the order of their numbers. -/
def all : List Opcode := [.init, .fill, .swap, .diff, .reverse, .xor, .copy, .bitset, .reset]

/-- The operation of that name, which is matched letter by letter. -/
def ofLongName? (name : String) : Option Opcode := all.find? fun o => o.longName == name

/-- The form of an operation, its name. -/
def toValue (o : Opcode) : Value := .text o.longName

/-- The operation with the given form. -/
def ofValue? (v : Value) : Option Opcode := do
  let (name, content) ← v.alternative?
  guard (Value.isBare content)
  ofLongName? name

end Opcode

/-! ## Instructions -/

namespace Instruction

/-- The operands of an instruction by name. -/
def operands : Instruction Address → List (String × Value)
  | .init | .reset => []
  | .fill dst byte => [("dst", .ofNat dst.toNat), ("byte", .ofNat byte.toNat)]
  | .swap dst | .reverse dst => [("dst", .ofNat dst.toNat)]
  | .diff dst inverted => [("dst", .ofNat dst.toNat), ("invert", .bool inverted)]
  | .xor dst src | .copy dst src => [("dst", .ofNat dst.toNat), ("src", .ofNat src.toNat)]
  | .bitset dst mask => [("dst", .ofNat dst.toNat), ("mask", .ofNat mask.toNat)]

/-- The form of an instruction: the name of its operation, with the operands when
it has any. -/
def toValue (i : Instruction Address) : Value :=
  match i.operands with
  | [] => i.opcode.toValue
  | operands => .record [(i.opcode.longName, .record operands)]

/-- The instruction of an operation whose operands are the fields of `v`. -/
def ofFields? (o : Opcode) (v : Value) : Option (Instruction Address) := do
  let dst ← (← v.field? "dst").word?
  match o with
  | .init | .reset => none
  | .fill => return .fill dst (← (← v.field? "byte").byte?)
  | .swap => return .swap dst
  | .diff => return .diff dst (← (← v.field? "invert").bool?)
  | .reverse => return .reverse dst
  | .xor => return .xor dst (← (← v.field? "src").word?)
  | .copy => return .copy dst (← (← v.field? "src").word?)
  | .bitset => return .bitset dst (← (← v.field? "mask").byte?)

/-- The instruction with the given form. -/
def ofValue? (v : Value) : Option (Instruction Address) := do
  let (name, content) ← v.alternative?
  match ← Opcode.ofLongName? name, content with
  | .init, content => if Value.isBare content then some .init else none
  | .reset, content => if Value.isBare content then some .reset else none
  | o, some fields => ofFields? o fields
  | _, none => none

end Instruction

/-! ## Triples and matches -/

namespace Triple

/-- The form of a triple. -/
def toValue (t : Triple) : Value :=
  .record [("opcode", .int t.opcode.toInt), ("param1", .int t.param1.toInt),
    ("param2", .int t.param2.toInt)]

/-- The triple with the given form. -/
def ofValue? (v : Value) : Option Triple := do
  match ← v.fields? ["opcode", "param1", "param2"] with
  | [opcode, param1, param2] => return ⟨← opcode.long?, ← param1.long?, ← param2.long?⟩
  | _ => none

end Triple

namespace Window

/-- The form of a window, the list of its bytes. -/
def toValue (w : Window) : Value := .list (w.toList.map fun b => .ofNat b.toNat)

/-- The window with the given bytes, if there are sixteen of them. -/
def ofBytes? (bytes : List UInt8) : Option Window :=
  if h : bytes.length = 16 then some ⟨bytes.toArray, by simpa using h⟩ else none

/-- The window with the given form. -/
def ofValue? : Value → Option Window
  | .list values => do ofBytes? (← values.mapM Value.byte?)
  | _ => none

end Window

namespace Match

/-- The form of a match. -/
def toValue (m : Match) : Value :=
  .record [("snapshot", m.window.toValue), ("outer", .ofNat m.round), ("inner", .ofNat m.pass),
    ("position", .ofNat m.position), ("address", .ofNat m.address.toNat)]

/-- The match with the given form. -/
def ofValue? (v : Value) : Option Match := do
  match ← v.fields? ["snapshot", "outer", "inner", "position", "address"] with
  | [window, round, pass, position, address] =>
    return {
      window := ← Window.ofValue? window
      round := ← round.below? UInt32.size
      pass := ← pass.below? UInt32.size
      position := ← position.below? UInt64.size
      address := ← address.word? }
  | _ => none

end Match

end SaveRam
