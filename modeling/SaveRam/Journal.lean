/-!
# The journal

While a command runs it reports its progress as journal entries.  An entry has a
level, the part of the program that wrote it, a sentence and named values.  A
threshold decides which levels are shown.
-/

namespace SaveRam

/-- How important a journal entry is, the most important level first. -/
inductive Level where
  | error
  | warn
  | info
  | debug
  | trace
deriving DecidableEq

namespace Level

/-- The place of a level in the order of importance. -/
def rank : Level → Nat
  | .error => 1
  | .warn => 2
  | .info => 3
  | .debug => 4
  | .trace => 5

/-- The word for a level in a journal line. -/
def name : Level → String
  | .error => "ERROR"
  | .warn => "WARN"
  | .info => "INFO"
  | .debug => "DEBUG"
  | .trace => "TRACE"

end Level

/-- Up to which level entries are shown. -/
inductive Threshold where
  | off
  | upTo (level : Level)
deriving DecidableEq

namespace Threshold

/-- Whether entries of a level are shown. -/
def shows : Threshold → Level → Bool
  | .off, _ => false
  | .upTo last, level => level.rank ≤ last.rank

/-- The threshold that a word names. -/
def ofName? : String → Option Threshold
  | "off" => some .off
  | "error" => some (.upTo .error)
  | "warn" => some (.upTo .warn)
  | "info" => some (.upTo .info)
  | "debug" => some (.upTo .debug)
  | "trace" => some (.upTo .trace)
  | _ => none

/-- The threshold for a number of verbosity flags. -/
def ofVerbosity : Nat → Threshold
  | 0 => .upTo .info
  | 1 => .upTo .debug
  | _ => .upTo .trace

end Threshold

/-- The part of the program that writes an entry. -/
inductive Origin where
  | command
  | reader
  | loader
  | snapshot
  | machine
  | search
  | dump
deriving DecidableEq

/-- The name under which a part signs its entries. -/
def Origin.name : Origin → String
  | .command => "sram"
  | .reader => "sram_loader::parser"
  | .loader => "sram_loader::loader"
  | .snapshot => "sram_runtime::io"
  | .machine => "sram_runtime::engine"
  | .search => "sram_search::search"
  | .dump => "sram_search::dump"

/-- One entry of the journal. -/
structure Entry where
  level : Level
  origin : Origin
  message : String
  values : List (String × String)
deriving DecidableEq

/-- The line of an entry. -/
def Entry.line (e : Entry) : String :=
  s!"{e.level.name} {e.origin.name}: {e.message}" ++
    String.join (e.values.map fun (key, value) => s!" {key}={value}")

end SaveRam
