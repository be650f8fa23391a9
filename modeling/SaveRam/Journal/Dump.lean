import SaveRam.Dump
import SaveRam.Journal.Pass

/-!
# The journal of a dump

Every pass leaves its steps at the lowest level and one entry with the nibble
that it carries on.
-/

namespace SaveRam

/-- The entry for a finished pass of a dump. -/
def Dump.Event.passEntry (index : Nat) (carried : Nibble) : Entry where
  level := .debug
  origin := .dump
  message := "dump pass"
  values := [("iteration", toString index), ("last_result", toString carried.toNat)]

/-- The entries of a step of a dump. -/
def Dump.Event.entries (threshold : Threshold) : Dump.Event → List Entry
  | .passing m => if threshold.shows .trace then m.passEntries else []
  | .passed index carried =>
    if threshold.shows .debug then [passEntry index carried] else []

/-- Runs a dump of `n` passes and writes its journal. -/
def Machine.dumpNoted (threshold : Threshold) (n : Nat) (m : Machine) :
    Machine × List Entry × Except Dump.Error (List Window) :=
  let note (journal : Array Entry) (event : Dump.Event) := journal ++ event.entries threshold
  match m.dumpWith note #[] n with
  | (m, journal, windows) => (m, journal.toList, windows)

end SaveRam
