import SaveRam.CommandLine.Arguments

/-!
# The command line

`CommandLine.run` is a whole run of the program on a model of the files: the exit
code, what was printed, the lines shown beside the output and the files
afterwards.  The exit code is 0 for success, 1 for a failed command, 101 for one that
breaks off and 2 for a command line that asks for nothing known.
-/

namespace SaveRam

/-- What a run of the program leaves behind. -/
structure RunResult where
  exit : UInt32
  output : String
  /-- The journal entries that are shown, and the report of a failure. -/
  messages : List String
  files : Files

namespace CommandLine

/-- How the program is used. -/
def usage : String := "usage: sram [-v]... [--strict] search | dump | disasm FILE"

/-- The threshold of an invocation: the one set from outside, or else the one
of its verbosity flags. -/
def threshold (set : Option Threshold) (i : Invocation) : Threshold :=
  set.getD (.ofVerbosity i.verbosity)

/-- What an invocation does, up to its failure. -/
def script (set : Option Threshold) (i : Invocation) : Script (Except Failure Unit) :=
  (i.command.task i.strict (threshold set i)).run

/-- The lines of the entries that a threshold shows. -/
def shownLines (t : Threshold) (entries : List Entry) : List String :=
  (entries.filter fun e => t.shows e.level).map Entry.line

/-- The exit code of a command. -/
def exitCode : Except Failure Unit → UInt32
  | .ok () => 0
  | .error f => f.exitCode

/-- The lines that report how a command ended. -/
def closing : Except Failure Unit → List String
  | .ok () => []
  | .error f => f.report

/-- Runs an invocation on some files. -/
def runInvocation (set : Option Threshold) (i : Invocation) (files : Files) : RunResult :=
  match (script set i).perform ⟨files, "", []⟩ with
  | (result, world) =>
    { exit := exitCode result
      output := world.output
      messages := shownLines (threshold set i) world.journal ++ closing result
      files := world.files }

/-- Runs a command line on some files. -/
def run (set : Option Threshold) (words : List String) (files : Files) : RunResult :=
  match Invocation.ofArguments? words with
  | some i => runInvocation set i files
  | none => { exit := 2, output := "", messages := [usage], files }

/-- The words of a command line matter for the invocation that they ask for only. -/
theorem run_of_arguments {words : List String} {i : Invocation}
    (h : Invocation.ofArguments? words = some i) (set : Option Threshold) (files : Files) :
    run set words files = runInvocation set i files := by
  rw [run, h]

end CommandLine

end SaveRam
