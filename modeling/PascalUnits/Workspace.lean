import PascalUnits.Error
import PascalUnits.FileTree
import PascalUnits.Path

/-!
# Workspaces

A workspace is what surrounds a run: a file tree, the directory in which relative paths begin, and
the variables that the program reads. Paths are followed name by name, so `..` leads to the parent
of a directory that exists, and a path through a file leads nowhere. A path with a slash at its end
can only lead to a directory.
-/

namespace PascalUnits

/-- The surroundings of a run. -/
structure Workspace where
  tree : FileTree
  /-- The directory in which relative paths begin. -/
  here : Location
  /-- The system's directory for temporary files. -/
  systemScratch : String
  /-- The list of source directories, if the variable is set. -/
  searchVariable : Option String := none
  /-- The directory for temporary files, if the variable is set. -/
  scratchVariable : Option String := none
  /-- Tells this run from others at the same time. -/
  run : String

namespace Workspace

/-- Follows names from a place. The place reached need not exist, but all before it are
directories. -/
def follow (tree : FileTree) : Location → List String → Except IoFault Location
  | place, [] => .ok place
  | place, name :: rest =>
    match tree.node? place with
    | none => .error .noSuchFile
    | some (.file _) => .error .notADirectory
    | some .directory =>
      if name = "" ∨ name = "." then follow tree place rest
      else if name = ".." then follow tree place.dropLast rest
      else follow tree (place ++ [name]) rest

/-- The place that a path leads to, whether or not anything is there. -/
def locate (workspace : Workspace) (path : String) : Except IoFault Location :=
  if path.isEmpty then .error .noSuchFile
  else
    let start := if Path.isAbsolute path then [] else workspace.here
    follow workspace.tree start (Text.splitOn '/' path)

/-- The place that a path leads to and what is there. -/
def resolve (workspace : Workspace) (path : String) : Except IoFault (Location × Node) := do
  let place ← workspace.locate path
  match workspace.tree.node? place with
  | some node => .ok (place, node)
  | none => .error .noSuchFile

/-- Whether a path leads to anything. -/
def pathExists (workspace : Workspace) (path : String) : Bool :=
  (workspace.resolve path).toOption.isSome

/-- The file that a path leads to, if it leads to one. -/
def file? (workspace : Workspace) (path : String) : Option Location :=
  match workspace.resolve path with
  | .ok (place, .file _) => some place
  | _ => none

/-- The directory that a path leads to, if it leads to one. -/
def directory? (workspace : Workspace) (path : String) : Option Location :=
  match workspace.resolve path with
  | .ok (place, .directory) => some place
  | _ => none

/-- The contents of the file that a path leads to. -/
def read (workspace : Workspace) (path : String) : Except IoFault Bytes := do
  match ← workspace.resolve path with
  | (_, .file contents) => .ok contents
  | (_, .directory) => .error .isADirectory

/-- The text of the file that a path leads to. -/
def readText (workspace : Workspace) (path : String) : Except IoFault String := do
  match Bytes.text? (← workspace.read path) with
  | some text => .ok text
  | none => .error .notText

/-- The place at which a path lets a file be written: a file, or nothing in a directory. A path with
a slash at its end asks for a directory, even where a file is. -/
def target (workspace : Workspace) (path : String) : Except IoFault Location := do
  if Path.endsWithSlash path then
    let bare := String.ofList (path.toList.reverse.dropWhile (· == '/')).reverse
    if !bare.isEmpty then
      let _ ← workspace.locate bare
    .error .isADirectory
  else
    let place ← workspace.locate path
    match workspace.tree.node? place with
    | some .directory => .error .isADirectory
    | _ => .ok place

/-- Writes a file. -/
def write (workspace : Workspace) (path : String) (contents : Bytes) :
    Except IoFault Workspace := do
  let place ← workspace.target path
  .ok { workspace with tree := workspace.tree.write place contents }

/-- Takes a file away, if the path leads to one. -/
def remove (workspace : Workspace) (path : String) : Workspace :=
  match workspace.file? path with
  | some place => { workspace with tree := workspace.tree.erase place }
  | none => workspace

/-- The directory for temporary files: the one that the variable names, or the system's. -/
def scratch (workspace : Workspace) : String :=
  match workspace.scratchVariable with
  | some path => if path.isEmpty then workspace.systemScratch else path
  | none => workspace.systemScratch

end Workspace

end PascalUnits
