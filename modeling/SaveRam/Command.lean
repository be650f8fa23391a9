import SaveRam.Behavior.File
import SaveRam.Dump.Text
import SaveRam.Failure
import SaveRam.Journal.Dump
import SaveRam.Journal.Search
import SaveRam.Snapshot

/-!
# Commands

The three things the program can be asked for: a search, a dump and the listing
of a behavior file.  `Command.task` says what a command does, up to its end or to
the failure that stops it.
-/

namespace SaveRam

/-- A request with all its settings. -/
inductive Command where
  | search (snapshot seedProgram probeProgram : String) (rounds passes : UInt32)
  | dump (snapshot program : String) (iterations : UInt64) (output : String)
  | disasm (program : String)
deriving DecidableEq

/-- A script that may end in a failure. -/
abbrev Task := ExceptT Failure Script

namespace Task

/-- Adds entries to the journal. -/
def log (entries : List Entry) : Task Unit := liftM (Script.log entries)

/-- Prints a text. -/
def say (text : String) : Task Unit := liftM (Script.say text)

/-- Runs a script on files and turns its error into a failure. -/
def attempt {α ε : Type} (wrap : ε → Failure) (s : Script (Except ε α)) : Task α :=
  ExceptT.mk do
    match ← s with
    | .ok value => return .ok value
    | .error e => return .error (wrap e)

end Task

/-- An entry that the command itself writes. -/
def Command.entry (level : Level) (message : String) (values : List (String × String)) : Entry :=
  { level, origin := .command, message, values }

/-- The journal entries on a behavior file that is going to be used. -/
def Reading.useEntries (name : String) (r : Reading) : List Entry :=
  let stop := r.stop.toList.map fun stop =>
    Command.entry .warn stop.message [("path", name)]
  let count := r.program.unknownCount
  let unknown :=
    if count > 0 then
      [Command.entry .warn
        "behavior contains unknown operations; passes reaching them will fail"
        [("path", name), ("invalid", toString count)]]
    else
      []
  let loaded := Command.entry .info "loaded behavior"
    [("path", name), ("instructions", toString r.program.length)]
  stop ++ unknown ++ [loaded]

/-- The program in a behavior file.  In strict use a file that is not taken in
completely is a failure; otherwise what was read of it is used. -/
def Task.behavior (strict : Bool) (name : String) : Task Program := do
  let reading ← attempt (.readingBehavior name) (Reading.fromFile name)
  match reading.stop, strict with
  | some stop, true => throw (.parsing name stop)
  | _, _ =>
    log (reading.useEntries name)
    return reading.program

namespace Command

/-- The entry that tells which share of all addresses was found. -/
def reachEntry (r : Report) : Entry :=
  entry .info s!"reachable addresses: {r.percent}% ({r.addressCount}/65536)" []

/-- Searches for jump signatures and prints the report. -/
def searchTask (strict : Bool) (threshold : Threshold) (snapshot seedProgram probeProgram : String)
    (rounds passes : UInt32) : Task Unit := do
  match Bounds.make rounds passes with
  | .error e => throw (.bounds e)
  | .ok bounds =>
    Task.log [entry .info "reading seeded SRAM data" []]
    let memory ← Task.attempt (.readingSnapshot snapshot) (Snapshot.read snapshot)
    let seed ← Task.behavior strict seedProgram
    let probe ← Task.behavior strict probeProgram
    let search := Search.start (.start memory seed) probe bounds
    let (journal, result) := search.runNoted threshold
    Task.log journal
    match result with
    | .error e => throw (.searching e)
    | .ok tally =>
      Task.say tally.report.text
      Task.log [reachEntry tally.report]

/-- Prints the windows of a number of passes and stores the memory after
them. -/
def dumpTask (strict : Bool) (threshold : Threshold) (snapshot program : String)
    (iterations : UInt64) (output : String) : Task Unit := do
  let memory ← Task.attempt (.readingSnapshot snapshot) (Snapshot.read snapshot)
  let behavior ← Task.behavior strict program
  let (machine, journal, result) :=
    (Machine.start memory behavior).dumpNoted threshold iterations.toNat
  Task.log journal
  match result with
  | .error e => throw (.dumping e)
  | .ok windows =>
    Task.say (Dump.text windows)
    Task.attempt (.writingSnapshot output) (Snapshot.write output machine.memory)
    Task.log [entry .info "wrote final SRAM image" [("path", output)]]

/-- Prints the listing of a behavior file. -/
def disasmTask (strict : Bool) (program : String) : Task Unit := do
  let behavior ← Task.behavior strict program
  Task.say behavior.listing

/-- What a command does. -/
def task (strict : Bool) (threshold : Threshold) : Command → Task Unit
  | .search snapshot seedProgram probeProgram rounds passes =>
    searchTask strict threshold snapshot seedProgram probeProgram rounds passes
  | .dump snapshot program iterations output =>
    dumpTask strict threshold snapshot program iterations output
  | .disasm program => disasmTask strict program

end Command

end SaveRam
