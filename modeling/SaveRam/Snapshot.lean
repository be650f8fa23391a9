import SaveRam.Memory
import SaveRam.Script

/-!
# Snapshot files

A snapshot file is a memory image.  Reading takes no more than the first 8192 bytes
of the file and fills a shorter file up with zeros; writing stores exactly 8192 bytes.

`Memory.ofBytes` drops what is too much as well.  The two limits agree
(`Memory.ofBytes_take`), and a file is short exactly if its first 8192 bytes are
(`Snapshot.readEntry_length_take`), so what is read can be told from the whole
content.
-/

namespace SaveRam.Snapshot

/-- The journal entry for a snapshot that was read: a warning when bytes were
missing. -/
def readEntry (name : String) (found : Nat) : Entry :=
  if found < 0x2000 then
    { level := .warn
      origin := .snapshot
      message := "short snapshot, zero-filling remainder"
      values := [("path", name), ("found", toString found)] }
  else
    { level := .debug
      origin := .snapshot
      message := "loaded snapshot"
      values := [("path", name)] }

/-- The journal entry for a snapshot that was written. -/
def writeEntry (name : String) : Entry where
  level := .debug
  origin := .snapshot
  message := "wrote snapshot"
  values := [("path", name)]

/-- The memory in a snapshot file. -/
def read (name : String) : Script (Except FileError Memory) := do
  match ← Script.fetchFront 0x2000 name with
  | .error e => return .error e
  | .ok bytes =>
    Script.log [readEntry name bytes.length]
    return .ok (Memory.ofBytes bytes)

/-- Stores a memory in a snapshot file. -/
def write (name : String) (m : Memory) : Script (Except FileError Unit) := do
  match ← Script.store name m.toBytes with
  | .error e => return .error e
  | .ok () =>
    Script.log [writeEntry name]
    return .ok ()

/-- The entry for a snapshot does not depend on what stands behind its first 8192
bytes. -/
theorem readEntry_length_take (name : String) (content : List UInt8) :
    readEntry name (content.take 0x2000).length = readEntry name content.length := by
  by_cases h : content.length < 0x2000
  · rw [List.take_of_length_le (Nat.le_of_lt h)]
  · have hfull : (content.take 0x2000).length = 0x2000 := by
      rw [List.length_take]
      omega
    rw [readEntry, readEntry, if_neg h, hfull, if_neg (Nat.lt_irrefl _)]

end SaveRam.Snapshot
