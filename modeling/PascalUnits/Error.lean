import PascalUnits.SettingsFault
import PascalUnits.Text.Quoted

/-!
# Errors

Malformed source text is never an error: it is reported and reading goes on. What fails is access
to files, the settings, the size of a source, a source with too many faults, an unknown report
format or an unknown unit. `Error.message` gives the one text of each.
-/

namespace PascalUnits

/-- Why a file or directory could not be used. -/
inductive IoFault where
  | noSuchFile
  | notADirectory
  | isADirectory
  | noDirectoryThere
  | notText
  deriving DecidableEq, Repr

/-- The text of a fault: the operating system's with its number, or our own. -/
def IoFault.message : IoFault → String
  | .noSuchFile => "No such file or directory (os error 2)"
  | .notADirectory => "Not a directory (os error 20)"
  | .isADirectory => "Is a directory (os error 21)"
  | .noDirectoryThere => "not a directory"
  | .notText => "stream did not contain valid UTF-8"

/-- What can go wrong. -/
inductive Error where
  | io (path : String) (fault : IoFault)
  | sizeMismatch (size length : Nat)
  | tooManyErrors (count : Nat)
  | settings (path : String) (fault : SettingsFault)
  | unknownFormat (extension : String)
  | unitNotFound (name : String)
  deriving DecidableEq, Repr

/-- The text of an error. -/
def Error.message : Error → String
  | .io path fault => "I/O error on " ++ path ++ ": " ++ fault.message
  | .sizeMismatch size length => s!"file size ({size}) does not match src len ({length})"
  | .tooManyErrors count => s!"too many errors ({count})"
  | .settings path fault => "invalid config " ++ path ++ ": " ++ fault.message
  | .unknownFormat extension => "unknown output format: " ++ Text.quoted extension
  | .unitNotFound name => "unit not found: " ++ name

end PascalUnits
