/-!
# Positions for people

A `Position` says where something stands in a file: the byte offset, and the line and column that an
editor shows. Line zero marks a position that is nowhere.
-/

namespace PascalUnits

/-- A place in a file. Lines and columns count from one, columns in bytes. -/
structure Position where
  filename : String := ""
  offset : Nat := 0
  line : Nat := 0
  column : Nat := 0
  deriving DecidableEq, Repr, Inhabited

namespace Position

/-- The position that is nowhere. -/
def nowhere : Position := {}

/-- A position with a line is somewhere. -/
def isValid (position : Position) : Bool :=
  0 < position.line

/-- `file:line:column`, less the parts that are missing; `-` when all are. -/
def display (position : Position) : String :=
  let place := s!"{position.line}:{position.column}"
  match position.filename.isEmpty, position.isValid with
  | false, true => position.filename ++ ":" ++ place
  | true, true => place
  | false, false => position.filename
  | true, false => "-"

end Position

end PascalUnits
