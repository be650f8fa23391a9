import SaveRam.Machine
import SaveRam.Window

/-!
# Dumps

A dump runs one machine for a number of passes and keeps the window before the
first pass and after each pass.  Room for all the windows is reserved before the
first pass, and a dump that asks for more than there can be (`Dump.Fits`) is given
up there.  `Machine.dumpWith` tells an observer what happens, as a search does;
`Machine.dump` has no observer.
-/

namespace SaveRam

/-- A step of a dump. -/
inductive Dump.Event where
  /-- The given machine is about to make a pass. -/
  | passing (m : Machine)
  /-- Pass `index` is over and carries a nibble on. -/
  | passed (index : Nat) (carried : Nibble)

/-- Why a dump has no windows to show. -/
inductive Dump.Error where
  /-- There is no room for so many windows, whatever the size of the memory at hand. -/
  | tooLong
  /-- A pass faulted. -/
  | fault (cause : Fault)
deriving DecidableEq

/-- The sentence for a dump that has no windows to show. -/
def Dump.Error.message : Dump.Error → String
  | .tooLong => "capacity overflow"
  | .fault cause => cause.message

/-- The windows of `n` passes, of sixteen bytes each, take up less than half of the
addresses there are.  Their number is counted in 64 bits. -/
def Dump.Fits (n : Nat) : Prop := 16 * ((n + 1) % UInt64.size) < UInt64.size / 2

instance (n : Nat) : Decidable (Dump.Fits n) := inferInstanceAs (Decidable (_ < _))

namespace Machine

variable {σ : Type}

/-- The passes of a dump from pass `index` on, `remaining` of them.  The windows
seen so far come first. -/
def dumpFrom (see : σ → Dump.Event → σ) :
    (remaining index : Nat) → Machine → Array Window → σ →
      Machine × σ × Except Dump.Error (List Window)
  | 0, _, m, windows, acc => (m, acc, .ok windows.toList)
  | remaining + 1, index, m, windows, acc =>
    let acc := see acc (.passing m)
    match m.pass with
    | (m, some fault) => (m, acc, .error (.fault fault))
    | (m, none) =>
      let acc := see acc (.passed index m.carried)
      dumpFrom see remaining (index + 1) m (windows.push m.memory.window) acc

/-- A dump under the eyes of an observer. -/
def dumpWith (see : σ → Dump.Event → σ) (init : σ) (n : Nat) (m : Machine) :
    Machine × σ × Except Dump.Error (List Window) :=
  if Dump.Fits n then
    dumpFrom see n 0 m #[m.memory.window] init
  else
    (m, init, .error .tooLong)

/-- The windows before and after each of `n` passes. -/
def dump (n : Nat) (m : Machine) : Machine × Except Dump.Error (List Window) :=
  match m.dumpWith (fun (_ : Unit) _ => ()) () n with
  | (m, _, windows) => (m, windows)

end Machine

end SaveRam
