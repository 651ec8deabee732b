import PascalUnits.Index.Build

/-!
# Projects

A project is known by its root units and by the directories that hold its sources. Its index first
registers the files among the roots, so that they come before any other file of the same unit, then
the project's own directory, then the search directories in order. Then it is built from the roots.
-/

namespace PascalUnits

/-- What a project is made of: its root units, named or given by their files, and the directories in
which its sources are. -/
structure Project where
  roots : List String
  directory : Option String := none
  search : List String := []

namespace Project

/-- Registers every unit and include file below a search directory, if there is one. -/
def addSearchDirectory (workspace : Workspace) (index : Index) (path : String) : Traced Index :=
  match index.addDirectory workspace path with
  | .ok registered => registered
  | .error error => { value := index, events := [.searchDirectorySkipped path error] }

/-- The files among the roots. -/
def rootFiles (workspace : Workspace) (project : Project) : List String :=
  (project.roots.filterMap workspace.file?).map Location.path

/-- The index of a project. Its own directory has to exist; search directories need not. -/
def index (workspace : Workspace) (settings : Settings) (project : Project) :
    Traced (Except Error Index) := do
  let index ← (project.rootFiles workspace).foldlM Index.addUnitPath { settings }
  match project.directory.elim (.ok (pure index)) (index.addDirectory workspace) with
  | .error error => return .error error
  | .ok registered =>
    let index ← registered
    let index ← project.search.foldlM (addSearchDirectory workspace) index
    Traced.tell (.sourcesRegistered index.knownUnits)
    return .ok (← index.build workspace project.roots)

end Project

end PascalUnits
