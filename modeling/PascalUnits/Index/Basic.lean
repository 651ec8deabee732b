import PascalUnits.Event
import PascalUnits.NameTable
import PascalUnits.Settings
import PascalUnits.UnitUses
import PascalUnits.Workspace

/-!
# The index of a project

An `Index` knows which file holds which unit or include file, and what each unit uses that has been
loaded. Files are registered by the stem of their names; the first file registered for a name stays.
Registering a directory registers every unit and include file below it.
-/

namespace PascalUnits

/-- What is known of the units of a project. -/
structure Index where
  settings : Settings := {}
  /-- Whether uses in implementation parts are left out. -/
  interfaceOnly : Bool := settings.interfaceOnly
  /-- The names of the units that were asked for, in the order they were. -/
  roots : List String := []
  /-- The file of each registered unit. -/
  unitPaths : NameTable String := .empty
  /-- The file of each registered include file. -/
  includePaths : NameTable String := .empty
  /-- What each loaded unit uses. -/
  uses : NameTable UnitUses := .empty

namespace Index

/-- Registers the file at `path` under the stem of its name, unless that is taken. -/
def register (table : NameTable String) (path : String) : Traced (NameTable String) :=
  let name := (Path.fileName? path).getD ""
  if table.contains (UnitName.ofPath name) then
    { value := table, events := [.duplicateEntry name path] }
  else
    { value := table.insert (UnitName.ofPath name) path }

/-- Registers a file as the source of a unit. -/
def addUnitPath (index : Index) (path : String) : Traced Index := do
  return { index with unitPaths := ← register index.unitPaths path }

/-- Registers an include file. -/
def addIncludePath (index : Index) (path : String) : Traced Index := do
  return { index with includePaths := ← register index.includePaths path }

/-- Names of hidden entries and of copies that editors leave behind. -/
def isSetAside (name : String) : Bool :=
  name.toList.head? == some '.' || name.toList.head? == some '~' || name.toList.getLast? == some '~'

/-- The files below a directory that an index looks at, by their absolute paths in order. -/
def candidates (tree : FileTree) (directory : Location) : List String :=
  ((tree.filesBelow directory).filter fun names => !names.any isSetAside).map fun names =>
    Location.path (directory ++ names)

/-- The unit and include files below the directory that `path` leads to. There are none below the
standard input. -/
def sourceFiles (workspace : Workspace) (settings : Settings) (path : String)
    (directory : Location) : List String :=
  if Path.isStandardInput path then []
  else
    (candidates workspace.tree directory).filter fun file =>
      settings.isIncludeFile file || settings.isUnitFile file

/-- Registers a source file as what its extension says. -/
def addSourceFile (index : Index) (path : String) : Traced Index :=
  if index.settings.isIncludeFile path then index.addIncludePath path
  else index.addUnitPath path

/-- Registers every unit and include file below a directory. -/
def addDirectory (workspace : Workspace) (index : Index) (path : String) :
    Except Error (Traced Index) :=
  match workspace.directory? path with
  | none => .error (.io path .noDirectoryThere)
  | some directory =>
    let files := sourceFiles workspace index.settings path directory
    .ok do
      let index ← files.foldlM addSourceFile index
      Traced.tell (.registeredDirectory path files.length)
      return index

/-- Whether a unit has been loaded. -/
def isLoaded (index : Index) (unit : String) : Bool :=
  index.uses.contains unit

/-- What a loaded unit uses. -/
def get? (index : Index) (unit : String) : Option UnitUses :=
  index.uses.find? unit

/-- The name under which a unit was loaded. It need not be the one that was met first. -/
def normalName? (index : Index) (unit : String) : Option String :=
  (index.get? unit).map (·.unit)

/-- The name that a report shows for a use: the loaded unit's own, or the one recorded. -/
def displayName (index : Index) (name : String) : String :=
  (index.normalName? name).getD name

/-- The number of units with a file. -/
def knownUnits (index : Index) : Nat :=
  index.unitPaths.size

end Index

end PascalUnits
