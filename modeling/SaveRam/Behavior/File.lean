import SaveRam.Behavior.Reading
import SaveRam.Script

/-!
# Behavior files

Reading a behavior file fails only when the file cannot be read or is not
UTF-8.  A text that cannot be taken in completely is no failure here: the result
says how far reading came.
-/

namespace SaveRam

/-- The text with the given bytes in UTF-8. -/
def textOfBytes (bytes : List UInt8) : Except FileError String :=
  match String.fromUTF8? ⟨bytes.toArray⟩ with
  | some text => .ok text
  | none => .error .notText

/-- What happens to the values read so far when reading stops. -/
def Stop.consequence : Stop → String
  | .invalidToken .. => "keeping instructions read so far"
  | .incomplete .. => "dropping trailing values"

namespace Reading

/-- The warning that reading stopped early. -/
def stopEntry (r : Reading) (stop : Stop) : Entry where
  level := .warn
  origin := .reader
  message := s!"{stop.message}; {stop.consequence}"
  values := [("loaded", toString r.program.length)]

/-- The entry for a file that was read. -/
def fileEntry (name : String) (r : Reading) : Entry where
  level := .debug
  origin := .loader
  message := "loaded behavior program"
  values :=
    [("path", name), ("instructions", toString r.program.length),
      ("complete", toString r.isComplete)]

/-- The journal of reading a file. -/
def entries (name : String) (r : Reading) : List Entry :=
  (r.stop.map r.stopEntry).toList ++ [r.fileEntry name]

/-- Reads the behavior program in a file. -/
def fromFile (name : String) : Script (Except FileError Reading) := do
  match ← Script.fetch name with
  | .error e => return .error e
  | .ok content =>
    match textOfBytes content with
    | .error e => return .error e
    | .ok text =>
      let reading := Reading.ofText text
      Script.log (reading.entries name)
      return .ok reading

end Reading

end SaveRam
