import PascalUnits.Toml.Double
import PascalUnits.Toml.Fault

/-!
# Faults of settings files

A settings file that holds no settings is no TOML document, has a setting twice, or has a value that
is not fit for its setting. `SettingsFault.message` says which, for which key and where.
-/

namespace PascalUnits

/-- A value, as far as the fault of a setting tells it. -/
inductive Unfit where
  | text (value : String)
  | boolean (value : Bool)
  | integer (value : Int)
  | float (value : Toml.Double)
  | array
  | table
  deriving DecidableEq, Repr

/-- What a fault calls a value. -/
def Unfit.description : Unfit → String
  | .text value => "string " ++ Text.quoted value
  | .boolean value => s!"boolean `{value}`"
  | .integer value => s!"integer `{value}`"
  | .float value => "floating point `" ++ value.text ++ "`"
  | .array => "sequence"
  | .table => "map"

/-- What a setting, or an item of one, has to be. -/
inductive Fit where
  | texts
  | path
  | text
  | boolean
  | natural
  deriving DecidableEq, Repr

/-- What a fault calls it. -/
def Fit.description : Fit → String
  | .texts => "a sequence"
  | .path => "path string"
  | .text => "a string"
  | .boolean => "a boolean"
  | .natural => "usize"

/-- Why a file holds no settings. -/
inductive SettingsCause where
  /-- The file is no TOML document. -/
  | malformed (cause : Toml.Cause)
  /-- A setting is there twice. -/
  | repeated (name : String)
  /-- A value is of the wrong kind. -/
  | wrongKind (found : Unfit) (wanted : Fit)
  /-- A value is of the right kind but out of range. -/
  | outOfRange (found : Unfit) (wanted : Fit)
  deriving DecidableEq, Repr

/-- The text of a cause. -/
def SettingsCause.message : SettingsCause → String
  | .malformed cause => cause.message
  | .repeated name => "duplicate field `" ++ name ++ "`"
  | .wrongKind found wanted =>
    "invalid type: " ++ found.description ++ ", expected " ++ wanted.description
  | .outOfRange found wanted =>
    "invalid value: " ++ found.description ++ ", expected " ++ wanted.description

/-- Why a file holds no settings, for which key and where. -/
structure SettingsFault where
  cause : SettingsCause
  keys : List String
  line : Nat
  column : Nat
  deriving DecidableEq, Repr

/-- The text of a fault. -/
def SettingsFault.message (fault : SettingsFault) : String :=
  let key := if fault.keys.isEmpty then "" else " for key `" ++ ".".intercalate fault.keys ++ "`"
  fault.cause.message ++ key ++ s!" at line {fault.line} column {fault.column}"

end PascalUnits
