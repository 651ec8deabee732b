import PascalUnits.Path
import PascalUnits.Text.Ascii

/-!
# Names of units

Units are told apart by their names without regard to ASCII letter case: two names with the same
`key` name the same unit. A list of names without repetition is kept in the order of the keys by
`insert`, which never changes the spelling of a name that is there.
-/

namespace PascalUnits.UnitName

/-- What two spellings of one unit's name have in common. -/
def key (name : String) : String :=
  Text.lower name

@[simp] theorem key_key (name : String) : key (key name) = key name :=
  Text.lower_lower name

/-- The unit that a file holds: the stem of its name. A path without a file name stands for
itself. -/
def ofPath (path : String) : String :=
  (Path.stem? path).getD path

/-- Puts `name` in its place in a list in the order of the keys, unless it is there already. -/
def insert (name : String) : List String → List String
  | [] => [name]
  | head :: tail =>
    match compare (key name) (key head) with
    | .lt => name :: head :: tail
    | .eq => head :: tail
    | .gt => head :: insert name tail

end PascalUnits.UnitName
