/-!
# Columns

Text that is filled up with spaces to the width of its column.  Text that is
already as wide as the column is left as it is.
-/

namespace SaveRam.Columns

/-- The spaces missing from a text of `length` characters in a column. -/
def fill (width length : Nat) : List Char := List.replicate (width - length) ' '

/-- Text at the right end of its column. -/
def alignRight (width : Nat) (text : String) : String :=
  String.ofList (fill width text.toList.length ++ text.toList)

/-- Text at the left end of its column. -/
def alignLeft (width : Nat) (text : String) : String :=
  String.ofList (text.toList ++ fill width text.toList.length)

end SaveRam.Columns
