import PascalUnits.Scan.Drive

/-!
# The tokens of a file

`tokenize` lists the tokens of a text with their places, without the final `Token.eof`, and the
faults met. It stops after the token with which more than `maxErrors` faults have been met and then
says that the list is truncated.
-/

namespace PascalUnits

/-- A token with its place in the file. -/
structure PlacedToken where
  position : Position
  token : Token
  literal : Bytes
  deriving DecidableEq, Repr

/-- The tokens and faults of one file. -/
structure FileTokens where
  path : String
  tokens : List PlacedToken
  diagnostics : List Diagnostic
  truncated : Bool
  deriving DecidableEq, Repr

namespace Scanner

/-- A token in the text of a scanner that has passed it. -/
def placed (scanner : Scanner) (found : Scanned) : PlacedToken :=
  { position := scanner.file.locate found.offset, token := found.token, literal := found.literal }

/-- What a scanner still finds up to the end of the text, or up to the token with too many faults.
The end of the text is no token of the list. -/
def collect (path : String) (comments : Comments) (scanner : Scanner) : FileTokens :=
  let found := scanner.next comments
  if _ : found.1.token = .eof then
    { path, tokens := [], diagnostics := found.1.diagnostics, truncated := false }
  else if maxErrors < found.2.errorCount then
    { path
      tokens := [found.2.placed found.1]
      diagnostics := found.1.diagnostics
      truncated := true }
  else
    let following := collect path comments found.2
    { following with
      tokens := found.2.placed found.1 :: following.tokens
      diagnostics := found.1.diagnostics ++ following.diagnostics }
termination_by scanner.rest.length
decreasing_by exact rest_length_lt comments scanner ‹_›

end Scanner

/-- The tokens of `source`, placed in a file called `name`. -/
def tokenize (name : String) (source : Bytes) (comments : Comments) : Except Error FileTokens := do
  let file := SourceFile.fresh name FileSet.empty.base source.length
  return (← Scanner.start file source).collect name comments

end PascalUnits
