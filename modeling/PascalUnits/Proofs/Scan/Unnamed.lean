import PascalUnits.Proofs.Scan.Call
import PascalUnits.Proofs.Scan.View

/-!
# The name of a file shows in places only

A scanner in a file without a name hands out the same tokens as in the file, and the same faults at
the same offsets, lines and columns (`Scanner.withoutName_lawful`).
-/

namespace PascalUnits

/-! The same place, fault, file or scanner where the file has no name. -/

def Position.unnamed (position : Position) : Position :=
  { position with filename := "" }

def Diagnostic.unnamed (diagnostic : Diagnostic) : Diagnostic :=
  { diagnostic with position := diagnostic.position.unnamed }

def SourceFile.unnamed (file : SourceFile) : SourceFile :=
  { file with name := "" }

def Scanner.unnamed (scanner : Scanner) : Scanner :=
  { scanner with file := scanner.file.unnamed }

/-- Scanners where the file has no name. -/
def Scanner.withoutName : Scanner.View :=
  { scanner := Scanner.unnamed, diagnostic := Diagnostic.unnamed }

namespace SourceFile

theorem locate_unnamed (file : SourceFile) (offset : Nat) :
    file.unnamed.locate offset = (file.locate offset).unnamed := by
  simp only [locate, unnamed]
  split <;> rfl

theorem addLine_unnamed (file : SourceFile) (offset : Nat) :
    file.unnamed.addLine offset = (file.addLine offset).unnamed := by
  by_cases h : file.starts.headD 0 < offset ∧ offset < file.size
  · rw [addLine, addLine, if_pos h]
    exact if_pos h
  · rw [addLine, addLine, if_neg h]
    exact if_neg h

theorem addLines_unnamed (file : SourceFile) (offset : Nat) (text : Bytes) :
    file.unnamed.addLines offset text = (file.addLines offset text).unnamed := by
  induction text generalizing file offset with
  | nil => rfl
  | cons byte text ih =>
      rw [addLines, addLines, addLine_unnamed, ih, ih]
      split <;> rfl

end SourceFile

namespace Scanner

theorem skipBlanks_unnamed (scanner : Scanner) :
    scanner.unnamed.skipBlanks = scanner.skipBlanks.unnamed := by
  simp only [skipBlanks, advance, unnamed, SourceFile.addLines_unnamed]

theorem accept_unnamed (scanner : Scanner) (lexeme : Lexeme) :
    scanner.unnamed.accept lexeme = withoutName.call (scanner.accept lexeme) := by
  simp only [accept, advance, unnamed, View.call, withoutName, SourceFile.addLines_unnamed,
    SourceFile.locate_unnamed, List.map_map, List.length_map]
  rfl

/-- Without a name for the file, the same is handed out. -/
theorem withoutName_lawful : withoutName.Lawful where
  next_kept scanner := by
    show scanner.unnamed.next .kept = withoutName.call (scanner.next .kept)
    cases hrest : scanner.skipBlanks.rest with
    | nil =>
        have hunnamed : scanner.unnamed.skipBlanks.rest = [] := by rwa [skipBlanks_unnamed]
        rw [next_of_nil hrest, next_of_nil hunnamed, skipBlanks_unnamed]
        rfl
    | cons first rest =>
        have hunnamed : scanner.unnamed.skipBlanks.rest = first :: rest := by
          rwa [skipBlanks_unnamed]
        rw [next_kept_of_cons hrest, next_kept_of_cons hunnamed, skipBlanks_unnamed,
          accept_unnamed]
        rfl
  errorCount_eq _ := rfl

end Scanner

end PascalUnits
