import SaveRam.CommandLine

/-!
# The program

Carries out the script of a command on the real files and the real console.  The
journal goes to the standard error stream, and a variable of the environment may
set its threshold.
-/

namespace SaveRam

/-- The file error that the system reported. -/
def FileError.ofSystem : IO.Error → FileError
  | .noFileOrDirectory .. => .missing
  | .inappropriateType _ 21 _ => .isDirectory
  | .inappropriateType .. => .notDirectory
  | e@(.invalidArgument _ code _) =>
    if code = 36 ∨ code = -36 then .nameTooLong else .other e.toString
  | e => .other e.toString

/-- An action whose error is part of its value. -/
def guarded {α : Type} (action : IO α) : IO (Except FileError α) := do
  try
    return .ok (← action)
  catch e =>
    return .error (.ofSystem e)

/-- Carries out a script on the real world. -/
def Script.execute {α : Type} (threshold : Threshold) : Script α → IO α
  | .done value => return value
  | .read name next => do
    let content ← guarded (IO.FS.readBinFile name)
    (next (content.map fun bytes => bytes.data.toList)).execute threshold
  | .write name content next => do
    let result ← guarded (IO.FS.writeBinFile name ⟨content.toArray⟩)
    (next result).execute threshold
  | .print text next => do
    let out ← IO.getStdout
    out.putStr text
    out.flush
    next.execute threshold
  | .note entries next => do
    for line in CommandLine.shownLines threshold entries do
      IO.eprintln line
    next.execute threshold

/-- The variable of the environment that sets the threshold of the journal. -/
def thresholdVariable : String := "RUST_LOG"

end SaveRam

open SaveRam in
/-- Runs the command that the words ask for.  Words that make no command are
answered with a usage text and exit code 2. -/
def main (words : List String) : IO UInt32 := do
  match Invocation.ofArguments? words with
  | none =>
    IO.eprintln CommandLine.usage
    return 2
  | some invocation =>
    let set := (← IO.getEnv thresholdVariable).bind Threshold.ofName?
    let threshold := CommandLine.threshold set invocation
    let result ← (CommandLine.script set invocation).execute threshold
    for line in CommandLine.closing result do
      IO.eprintln line
    return CommandLine.exitCode result
