import Std.Data.TreeMap
import SaveRam.Window

/-!
# Match reports

A match records that a jump instruction stood in the window after a certain
probe pass.  A report groups matches by the address that the jump leads to.
Groups come in the order of their addresses, and inside a group the matches
come in the order in which they were recorded.
-/

namespace SaveRam

/-- A jump instruction that was seen. -/
structure Match where
  /-- The window with the jump. -/
  window : Window
  /-- The round of the search, counted from zero. -/
  round : Nat
  /-- The probe pass of the round, counted from one. -/
  pass : Nat
  /-- Where the jump stands in the window. -/
  position : Nat
  /-- Where the jump leads. -/
  address : Address
deriving DecidableEq

/-- Matches grouped by address. -/
structure Report where
  byAddress : Std.TreeMap Address (Array Match)
  size : Nat

namespace Report

/-- The report without matches. -/
def empty : Report := ⟨∅, 0⟩

instance : Inhabited Report := ⟨empty⟩

/-- Adds a match at the end of the group of its address. -/
def record (r : Report) (m : Match) : Report :=
  ⟨r.byAddress.alter m.address fun group => some ((group.getD #[]).push m), r.size + 1⟩

/-- Adds several matches, one after the other. -/
def recordAll (r : Report) (ms : List Match) : Report := ms.foldl record r

/-- Whether nothing was recorded. -/
def isEmpty (r : Report) : Bool := r.size == 0

/-- The groups with their addresses, addresses ascending. -/
def groups (r : Report) : List (Address × List Match) :=
  r.byAddress.toList.map fun (address, group) => (address, group.toList)

/-- All matches, group by group. -/
def toList (r : Report) : List Match := r.groups.flatMap (·.2)

/-- The matches with a given address, if there are any. -/
def get? (r : Report) (address : Address) : Option (List Match) :=
  r.byAddress[address]?.map Array.toList

/-- The number of different addresses. -/
def addressCount (r : Report) : Nat := r.byAddress.size

/-- Matches may be recorded in several parts. -/
theorem recordAll_append (r : Report) (ms ns : List Match) :
    r.recordAll (ms ++ ns) = (r.recordAll ms).recordAll ns :=
  List.foldl_append

end Report

end SaveRam
