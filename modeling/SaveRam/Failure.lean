import SaveRam.Behavior.Reading
import SaveRam.Dump
import SaveRam.Files
import SaveRam.Search

/-!
# Failures of commands

A command that fails says what it was doing and then why, one cause below the
other.  A dump that there is no room for is no such failure: the program breaks off
with a message and an exit code of its own.
-/

namespace SaveRam

/-- Why a command failed. -/
inductive Failure where
  | bounds (cause : BoundsError)
  | readingSnapshot (name : String) (cause : FileError)
  | readingBehavior (name : String) (cause : FileError)
  | parsing (name : String) (cause : Stop)
  | searching (cause : SearchError)
  | dumping (cause : Dump.Error)
  | writingSnapshot (name : String) (cause : FileError)
deriving DecidableEq

namespace Failure

/-- What the command was doing, or the error itself when that says it. -/
def headline : Failure → String
  | .bounds cause => cause.message
  | .readingSnapshot name _ => s!"reading snapshot {name}"
  | .readingBehavior name _ => s!"reading behavior file {name}"
  | .parsing name _ => s!"parsing {name}"
  | .searching cause => cause.message
  | .dumping cause => cause.message
  | .writingSnapshot name _ => s!"writing snapshot {name}"

/-- The causes behind the headline, the outermost first.  A file error shows
its message and below it the words of the system. -/
def causes : Failure → List String
  | .bounds _ | .dumping _ => []
  | .readingSnapshot _ cause | .readingBehavior _ cause | .writingSnapshot _ cause =>
    [cause.message, cause.words]
  | .parsing _ cause => [cause.message]
  | .searching (.bounds cause) => [cause.message]
  | .searching (.seed _ cause) | .searching (.probe _ _ cause) => [cause.message]

/-- Whether the program breaks off instead of reporting an error. -/
def breaksOff : Failure → Bool
  | .dumping .tooLong => true
  | _ => false

/-- The lines that report an error.  Several causes are numbered. -/
def errorReport (f : Failure) : List String :=
  let headline := s!"Error: {f.headline}"
  match f.causes with
  | [] => [headline]
  | [cause] => [headline, "", "Caused by:", s!"    {cause}"]
  | causes => [headline, "", "Caused by:"] ++ causes.mapIdx fun i cause => s!"    {i}: {cause}"

/-- The lines that report a failure. -/
def report (f : Failure) : List String := if f.breaksOff then [f.headline] else f.errorReport

/-- The exit code after a failure. -/
def exitCode (f : Failure) : UInt32 := if f.breaksOff then 101 else 1

/-- All failures but one are errors. -/
theorem exitCode_of_ne {f : Failure} (h : f ≠ .dumping .tooLong) : f.exitCode = 1 := by
  unfold exitCode breaksOff
  split <;> simp_all

/-- No failure has the exit code of success. -/
theorem exitCode_ne_zero (f : Failure) : f.exitCode ≠ 0 := by
  unfold exitCode
  split <;> decide

end Failure

end SaveRam
