import PascalUnits.Source.Position
import PascalUnits.Text.Bytes
import PascalUnits.Text.Quoted

/-!
# Source files and their lines

A source file owns the positions `base` to `base + size` of an address space that it may share with
other files. Its line table grows while the text is read: `addLine` accepts only an offset that
extends the table and lies inside the file, so reading a file again changes nothing.
-/

namespace PascalUnits

/-- A file in an address space. `starts` holds the offsets at which the lines found so far begin,
the last line first; the first line always begins at zero. -/
structure SourceFile where
  name : String
  base : Nat
  size : Nat
  starts : List Nat
  /-- The number of lines found so far. -/
  lineCount : Nat
  lineCount_eq : lineCount = starts.length
  deriving DecidableEq, Repr

/-- Why a number is no offset or no position of a file. -/
inductive PositionError where
  | offsetPastEnd (offset : Nat)
  | foreignPosition (pos : Nat) (file : String)
  deriving DecidableEq, Repr

/-- The text of a position error. -/
def PositionError.message : PositionError → String
  | .offsetPastEnd offset => s!"illegal file offset {offset}"
  | .foreignPosition pos file => s!"illegal Pos value {pos} for file " ++ Text.quoted file

namespace SourceFile

/-- A file of which no line but the first one has been found. -/
def fresh (name : String) (base size : Nat) : SourceFile :=
  { name, base, size, starts := [0], lineCount := 1, lineCount_eq := rfl }

/-- The line table from the first line on. -/
def lineTable (file : SourceFile) : List Nat :=
  file.starts.reverse

/-- Records that a line begins at `offset`, if that extends the table inside the file. -/
def addLine (file : SourceFile) (offset : Nat) : SourceFile :=
  if file.starts.headD 0 < offset ∧ offset < file.size then
    { file with
      starts := offset :: file.starts
      lineCount := file.lineCount + 1
      lineCount_eq := congrArg (· + 1) file.lineCount_eq }
  else
    file

/-- Records the lines that begin after the line feeds of `text`, which stands at `offset`. -/
def addLines (file : SourceFile) (offset : Nat) : Bytes → SourceFile
  | [] => file
  | byte :: text =>
    if byte = Byte.lineFeed then (file.addLine (offset + 1)).addLines (offset + 1) text
    else file.addLines (offset + 1) text

/-- Whether the position `pos` belongs to the file. The place just after the last byte does. -/
def contains (file : SourceFile) (pos : Nat) : Bool :=
  file.base ≤ pos && pos ≤ file.base + file.size

/-- The position of an offset. -/
def pos (file : SourceFile) (offset : Nat) : Except PositionError Nat :=
  if offset ≤ file.size then .ok (file.base + offset) else .error (.offsetPastEnd offset)

/-- The offset of a position. -/
def offset (file : SourceFile) (pos : Nat) : Except PositionError Nat :=
  if file.contains pos then .ok (pos - file.base) else .error (.foreignPosition pos file.name)

/-- Line and column of an offset by the lines found so far: the last line that does not begin after
it, and the distance from that beginning. -/
def locate (file : SourceFile) (offset : Nat) : Position :=
  let later := (file.starts.takeWhile (offset < ·)).length
  match file.starts.drop later with
  | [] => .nowhere
  | start :: _ =>
    { filename := file.name
      offset
      line := file.lineCount - later
      column := offset - start + 1 }

/-- The number of a line is one more than that of the lines before it. -/
theorem locate_eq (file : SourceFile) (offset : Nat) :
    file.locate offset =
      match file.starts.dropWhile (offset < ·) with
      | [] => .nowhere
      | start :: earlier =>
        { filename := file.name
          offset
          line := earlier.length + 1
          column := offset - start + 1 } := by
  have split := List.takeWhile_append_dropWhile (p := (offset < ·)) (l := file.starts)
  have count := file.lineCount_eq
  rw [← split, List.length_append] at count
  have drop : file.starts.drop (file.starts.takeWhile (offset < ·)).length =
      file.starts.dropWhile (offset < ·) := by
    conv => lhs; arg 2; rw [← split]
    exact List.drop_left
  unfold locate
  simp only [drop]
  split
  · rfl
  · rename_i start earlier found
    rw [found, List.length_cons] at count
    simp only [Position.mk.injEq, true_and, and_true]
    omega

/-- The place that a position of the address space denotes, if it belongs to the file. -/
def position (file : SourceFile) (pos : Nat) : Position :=
  if file.contains pos then file.locate (pos - file.base) else .nowhere

end SourceFile

end PascalUnits
