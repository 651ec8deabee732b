import PascalUnits.Scan.Tokenize
import PascalUnits.Workspace

/-!
# The tokens of many files

`tokenizeFile` reads a file of a workspace and lists its tokens. `tokenizeFiles` does that for each
path, in order; a file that cannot be read does not keep the others from being read.
-/

namespace PascalUnits

/-- The tokens of the file at `path`. -/
def tokenizeFile (workspace : Workspace) (comments : Comments) (path : String) :
    Except Error FileTokens :=
  match workspace.read path with
  | .error fault => .error (.io path fault)
  | .ok source => tokenize path source comments

/-- The tokens of each file, in the order of the paths. -/
def tokenizeFiles (workspace : Workspace) (comments : Comments) (paths : List String) :
    List (Except Error FileTokens) :=
  paths.map (tokenizeFile workspace comments)

end PascalUnits
