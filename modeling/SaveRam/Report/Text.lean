import SaveRam.Report
import SaveRam.Text.Columns
import SaveRam.Text.Decimal
import SaveRam.Window.Text

/-!
# The text of a report

A report has one line for each group, with the address, and under it one line
for each match of the group.  How much of the address space the groups cover is
written as a share or in percent.
-/

namespace SaveRam

/-- The line of a match: the round, the pass and the window. -/
def Match.line (m : Match) : String :=
  let hi := Columns.alignLeft 4 (toString m.round)
  let lo := Columns.alignLeft 3 (toString m.pass)
  s!"  Hi={hi} Lo={lo}    {m.window.text}\n"

namespace Report

/-- The line with the address of a group. -/
def heading (address : Address) : String := s!"[[ ${Hex.upper 4 address.toNat} ]]\n"

/-- The lines of a group. -/
def groupText (address : Address) (group : List Match) : String :=
  heading address ++ String.join (group.map Match.line)

/-- The text of a report. -/
def text (r : Report) : String :=
  String.join (r.groups.map fun (address, group) => groupText address group)

/-- The share of all addresses that the report reaches, with sixteen places.
The share has a denominator of `2 ^ 16` and is written exactly. -/
def coverage (r : Report) : String := Decimal.fixed 16 r.addressCount 0x10000

/-- The same share in percent, rounded to two places. -/
def percent (r : Report) : String := Decimal.fixed 2 (r.addressCount * 100) 0x10000

/-- The same share in percent, with as many places as it needs.  Sixteen always
suffice. -/
def exactPercent (r : Report) : String := Decimal.exact 16 (r.addressCount * 100) 0x10000

end Report

end SaveRam
