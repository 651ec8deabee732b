import PascalUnits.Settings
import PascalUnits.Text.Distinct
import PascalUnits.Workspace

/-!
# Source trees

A walk from a root visits each directory's entries by name and goes into a directory when it meets
one. Below the root, hidden entries are passed over. Files go by the path that the walk took: the
root as it was given, and the names from there.
-/

namespace PascalUnits.SourceTree

/-- Whether a name is hidden: it starts with a period. -/
def isHidden (name : String) : Bool :=
  name.toList.head? == some '.'

/-- The files that a walk from `root` meets, in order. A root that is a file is met itself. -/
def files (workspace : Workspace) (root : String) : List String :=
  if Path.isStandardInput root then []
  else
    match workspace.resolve root with
    | .error _ => []
    | .ok (_, .file _) => [root]
    | .ok (place, .directory) =>
      ((workspace.tree.filesBelow place).filter fun names => !names.any isHidden).map fun names =>
        names.foldl Path.join root

/-- Whether a path names a source file, whatever the settings say. -/
def isSource (path : String) : Bool :=
  Path.hasExtension path ["pas", "inc"]

/-- The directories that hold sources, in the order in which the walk finds them. Of directories
that differ in letter case only, the first one is taken. -/
def directories (workspace : Workspace) (root : String) : List String :=
  Text.distinct (((files workspace root).filter isSource).filterMap Path.parent?)

/-- How many files there are of each kind. -/
structure Counts where
  units : Nat
  includes : Nat
  deriving DecidableEq, Repr

/-- The text of the counts. -/
def Counts.summary (counts : Counts) : String :=
  s!"Found {counts.units + counts.includes} source files " ++
    s!"(units: {counts.units}, includes: {counts.includes})"

/-- Counts the units and the include files that a walk from `root` meets. -/
def count (workspace : Workspace) (settings : Settings) (root : String) : Counts :=
  { units := (files workspace root).countP settings.isUnitFile
    includes := (files workspace root).countP fun path =>
      !settings.isUnitFile path && settings.isIncludeFile path }

end PascalUnits.SourceTree
