import PascalUnits.Text.Bytes
import Std.Data.TreeMap

/-!
# File trees

A file tree says what is found where: a file with its contents, or a directory. A place is given by
the names on the way to it from the root directory, which always exists. Places are in the order in
which a walk meets them that visits each directory's entries by name and goes into a directory when
it meets one.
-/

namespace PascalUnits

/-- A place in a file tree: the names on the way to it from the root directory. -/
abbrev Location := List String

/-- The absolute path to a place. -/
def Location.path (location : Location) : String :=
  "/" ++ "/".intercalate location

/-- What is found at a place. -/
inductive Node where
  | directory
  | file (contents : Bytes)
  deriving DecidableEq, Repr

/-- What is found where, the root directory apart. -/
structure FileTree where
  nodes : Std.TreeMap Location Node := ∅

namespace FileTree

/-- The tree with nothing but the root directory. -/
def empty : FileTree := {}

/-- What is found at a place. -/
def node? (tree : FileTree) (location : Location) : Option Node :=
  if location.isEmpty then some .directory else tree.nodes[location]?

/-- Puts a file with the given contents at a place, instead of what is there. -/
def write (tree : FileTree) (location : Location) (contents : Bytes) : FileTree :=
  { nodes := tree.nodes.insert location (.file contents) }

/-- Takes away what is found at a place. -/
def erase (tree : FileTree) (location : Location) : FileTree :=
  { nodes := tree.nodes.erase location }

/-- Makes directories of a place and of all places on the way to it. -/
def addDirectory (tree : FileTree) (location : Location) : FileTree :=
  { nodes := (List.range location.length).foldl
      (fun nodes length => nodes.insert (location.take (length + 1)) .directory) tree.nodes }

/-- The files with their contents, in order. -/
def files (tree : FileTree) : List (Location × Bytes) :=
  tree.nodes.toList.filterMap fun entry =>
    match entry.2 with
    | .file contents => some (entry.1, contents)
    | .directory => none

/-- The files at or below `base` in order, by the names on the way from there. -/
def filesBelow (tree : FileTree) (base : Location) : List Location :=
  tree.files.filterMap fun entry => base.isPrefixOf? entry.1

end FileTree

end PascalUnits
