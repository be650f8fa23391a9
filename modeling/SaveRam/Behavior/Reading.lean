import SaveRam.Behavior.Token
import SaveRam.Program
import SaveRam.Text.Quoted

/-!
# Reading behavior programs

The values of a behavior file are taken three at a time.  Reading stops at the
first token without a value and keeps the triples before it; otherwise it stops
at the end of the text, where one or two values may be left over.  A `Reading`
holds the program read so far and why reading stopped early, if it did.
-/

namespace SaveRam

/-- Why reading a behavior file stopped early. -/
inductive Stop where
  /-- A token at byte `offset` is no number, or one that is too large. -/
  | invalidToken (offset : Nat) (text : String)
  /-- The values left over at the end, `found` of them, do not make a triple.
  The triple would have had position `index`. -/
  | incomplete (index found : Nat)
deriving DecidableEq

/-- The sentence for an early stop, with triples and bytes counted from zero. -/
def Stop.message : Stop → String
  | .invalidToken offset text => s!"Invalid token at byte {offset}: {Quoted.text text}"
  | .incomplete index found =>
    s!"Incomplete instruction {index}: expected 3 values, found {found}"

/-- What a behavior file gives. -/
structure Reading where
  program : Program
  stop : Option Stop
deriving DecidableEq

namespace Reading

/-- The values read since the last complete triple. -/
inductive Pending where
  | none
  | one (opcode : Int64)
  | two (opcode param1 : Int64)

/-- The number of values read since the last complete triple. -/
def Pending.count : Pending → Nat
  | .none => 0
  | .one _ => 1
  | .two .. => 2

/-- Takes in tokens after the triples in `program` and some pending values. -/
def collect (program : Array Triple) : Pending → List Token → Reading
  | .none, [] => ⟨program.toList, none⟩
  | pending, [] => ⟨program.toList, some (.incomplete program.size pending.count)⟩
  | pending, token :: tokens =>
    match token.value with
    | none => ⟨program.toList, some (.invalidToken token.start (String.ofList token.text))⟩
    | some value =>
      match pending with
      | .none => collect program (.one value) tokens
      | .one opcode => collect program (.two opcode value) tokens
      | .two opcode param1 => collect (program.push ⟨opcode, param1, value⟩) .none tokens

/-- Reads a behavior program from its text. -/
def ofText (text : String) : Reading := collect #[] .none (Token.scan text)

/-- Whether the whole text was taken in. -/
def isComplete (r : Reading) : Bool := r.stop.isNone

/-- The program, unless reading stopped early. -/
def whole (r : Reading) : Except Stop Program :=
  match r.stop with
  | none => .ok r.program
  | some stop => .error stop

end Reading

end SaveRam
