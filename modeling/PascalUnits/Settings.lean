import PascalUnits.SearchPath
import PascalUnits.Text.Ascii

/-!
# Settings

What can be set: where sources are searched, which extensions units and include files have, whether
uses in implementation parts are recorded, and how deep include directives may nest.
-/

namespace PascalUnits

/-- The settings of an index, with their defaults. Extensions have no period. -/
structure Settings where
  search : List String := []
  unitExtensions : List String := ["pas", "dpr"]
  includeExtensions : List String := ["inc"]
  interfaceOnly : Bool := false
  maxIncludeDepth : Nat := 16
  deriving DecidableEq, Repr, Inhabited

/-- Whether a path has one of the given extensions, in any ASCII letter case. -/
def Path.hasExtension (path : String) (extensions : List String) : Bool :=
  match Path.extension? path with
  | none => false
  | some extension => extensions.any (Text.sameIgnoringCase · extension)

namespace Settings

/-- Whether a path names a unit or project file. -/
def isUnitFile (settings : Settings) (path : String) : Bool :=
  Path.hasExtension path settings.unitExtensions

/-- Whether a path names an include file. -/
def isIncludeFile (settings : Settings) (path : String) : Bool :=
  Path.hasExtension path settings.includeExtensions

/-- The source directories that are set, or those of the search path `fallback` when none are. -/
def searchDirectories (settings : Settings) (fallback : Option String) : List String :=
  if settings.search.isEmpty then SearchPath.split (fallback.getD "") else settings.search

end Settings

end PascalUnits
