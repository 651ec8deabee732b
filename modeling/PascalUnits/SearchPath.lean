import PascalUnits.Path
import PascalUnits.Text.Blank

/-!
# Search paths

A search path is a list of directories in one text, with semicolons between them.
-/

namespace PascalUnits.SearchPath

/-- The directories of a search path, without white space around them. Empty entries are left
out. -/
def split (list : String) : List String :=
  ((Text.splitOn ';' list).map (Text.trim Text.isBlank)).filter (· != "")

/-- The search path of the given directories. -/
def ofDirectories (directories : List String) : String :=
  ";".intercalate directories

/-- The search path with every entry read from the directory `here`. The empty entry stays empty. -/
def absolute (here list : String) : String :=
  ofDirectories ((Text.splitOn ';' list).map fun entry => (Path.absolute? here entry).getD entry)

end PascalUnits.SearchPath
