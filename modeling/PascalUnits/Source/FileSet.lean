import PascalUnits.Source.File

/-!
# An address space of files

A `FileSet` lays files out one after the other, so that one number says both the file and the place
in it. A file is never placed below the end of the files before it; the position zero belongs to
none.
-/

namespace PascalUnits

/-- Files that share one address space, the last one first. `base` is the lowest position that a
further file may take. -/
structure FileSet where
  base : Nat := 1
  latestFirst : List SourceFile := []
  deriving DecidableEq, Repr, Inhabited

namespace FileSet

/-- The set without files. -/
def empty : FileSet := {}

/-- The files in the order they were added. -/
def files (set : FileSet) : List SourceFile :=
  set.latestFirst.reverse

/-- Adds a file of `size` bytes at `base`, or at the end of the set if that is higher. -/
def addFile (set : FileSet) (name : String) (base size : Nat) : FileSet :=
  let base := max base set.base
  { base := base + size + 1, latestFirst := .fresh name base size :: set.latestFirst }

/-- Replaces the file added last by what `change` makes of it. -/
def modifyLatest (set : FileSet) (change : SourceFile → SourceFile) : FileSet :=
  match set.latestFirst with
  | [] => set
  | file :: earlier => { set with latestFirst := change file :: earlier }

/-- The file that a position belongs to: of the files that begin at or before it, the last one, if
it reaches that far. -/
def file? (set : FileSet) (pos : Nat) : Option SourceFile :=
  (set.latestFirst.find? (·.base ≤ pos)).filter (·.contains pos)

/-- The place that a position denotes. -/
def position (set : FileSet) (pos : Nat) : Position :=
  match set.file? pos with
  | some file => file.position pos
  | none => .nowhere

/-- Positions are numbered from one. -/
def isValidPos (pos : Nat) : Bool :=
  pos != 0

end FileSet

end PascalUnits
