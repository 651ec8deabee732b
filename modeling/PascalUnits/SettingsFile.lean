import PascalUnits.Event
import PascalUnits.Settings
import PascalUnits.Toml.Read
import PascalUnits.Workspace

/-!
# Settings files

A settings file is a TOML document. Each setting is a field of the document itself; a setting that
is not there has its default, and fields and tables of other names mean nothing. A file that a user
names has to hold settings, whereas the file looked for by default may be missing or malformed:
then all settings have their defaults.
-/

namespace PascalUnits

/-- What stands under a name: a value, or tables under headers. -/
inductive Entry where
  | field (place : Toml.Placed Toml.Value)
  | tables (array : Bool)

/-- Why a document holds no settings. The place is that of a value, if one is at fault. -/
structure DocumentFault where
  cause : SettingsCause
  keys : List String := []
  offset : Option Nat := none

/-- The fault of a value of the wrong kind. It is not said where an array of the wrong kind is. -/
def Entry.wrongKind (entry : Entry) (wanted : Fit) : DocumentFault :=
  let fault (offset : Option Nat) (found : Unfit) : DocumentFault :=
    { cause := .wrongKind found wanted, offset }
  match entry with
  | .tables true => fault none .array
  | .tables false => fault none .table
  | .field { offset, value } =>
    match value with
    | .text value => fault offset (.text value)
    | .boolean value => fault offset (.boolean value)
    | .integer value => fault offset (.integer value)
    | .float value => fault offset (.float value)
    | .array _ => fault none .array
    | .moment | .inlineTable _ | .dottedTable _ => fault offset .table

/-- The text that a value is. -/
def Entry.text (wanted : Fit) : Entry → Except DocumentFault String
  | .field { value := .text value, .. } => .ok value
  | entry => .error (entry.wrongKind wanted)

/-- The texts in an array of nothing else. -/
def Entry.texts (wanted : Fit) : Entry → Except DocumentFault (List String)
  | .field { value := .array items, .. } => items.mapM fun item => text wanted (.field item)
  | .tables true => .error (wrongKind (.tables false) wanted)
  | entry => .error (entry.wrongKind .texts)

/-- The truth value that a value is. -/
def Entry.boolean : Entry → Except DocumentFault Bool
  | .field { value := .boolean value, .. } => .ok value
  | entry => .error (entry.wrongKind .boolean)

/-- The natural number that a value is. -/
def Entry.natural : Entry → Except DocumentFault Nat
  | .field { value := .integer value, offset } =>
    if 0 ≤ value then .ok value.toNat
    else .error { cause := .outOfRange (.integer value) .natural, offset }
  | entry => .error (entry.wrongKind .natural)

/-- The settings that a document gives, as far as it has been read. -/
structure GivenSettings where
  search : Option (List String) := none
  unitExtensions : Option (List String) := none
  includeExtensions : Option (List String) := none
  interfaceOnly : Option Bool := none
  maxIncludeDepth : Option Nat := none

namespace GivenSettings

/-- The value of a setting that was not given before. -/
def once {α : Type} (name : String) (before : Option α) (value : Except DocumentFault α) :
    Except DocumentFault (Option α) :=
  match before, value with
  | some _, _ => .error { cause := .repeated name }
  | none, .ok value => .ok (some value)
  | none, .error fault => .error { fault with keys := [name] }

/-- Takes a setting. Other names mean nothing. -/
def add (given : GivenSettings) (name : String) (entry : Entry) :
    Except DocumentFault GivenSettings := do
  match name with
  | "search" => return { given with search := ← once name given.search (entry.texts .path) }
  | "unit_extensions" =>
    return { given with unitExtensions := ← once name given.unitExtensions (entry.texts .text) }
  | "include_extensions" =>
    return {
      given with includeExtensions := ← once name given.includeExtensions (entry.texts .text) }
  | "interface_only" =>
    return { given with interfaceOnly := ← once name given.interfaceOnly entry.boolean }
  | "max_include_depth" =>
    return { given with maxIncludeDepth := ← once name given.maxIncludeDepth entry.natural }
  | _ => return given

/-- The settings given, and the defaults of the others. -/
def settings (given : GivenSettings) : Settings :=
  let default : Settings := {}
  { search := given.search.getD default.search
    unitExtensions := given.unitExtensions.getD default.unitExtensions
    includeExtensions := given.includeExtensions.getD default.includeExtensions
    interfaceOnly := given.interfaceOnly.getD default.interfaceOnly
    maxIncludeDepth := given.maxIncludeDepth.getD default.maxIncludeDepth }

end GivenSettings

namespace Settings

/-- The fault of a document that is no TOML document. -/
def malformed (fault : Toml.Fault) : DocumentFault :=
  { cause := .malformed fault.cause, keys := fault.keys, offset := fault.offset }

/-- Takes the tables with one first key. Those with the name of a setting are taken for it, and the
others have to stand in one document. -/
def addTables (document : Toml.Document) (given : GivenSettings) :
    Toml.Limb → Except DocumentFault GivenSettings
  | .own _ | .below _ [] => .ok given
  | .below key (first :: rest) => do
    let given ← given.add key (.tables first.isElement)
    (document.checkBelow (first :: rest)).mapError malformed
    return given

/-- The settings in a document: those among its fields, and then those among its tables. -/
def ofDocument (document : Toml.Document) : Except DocumentFault Settings := do
  let given ← document.fields.foldlM
    (fun given (field : String × Toml.Placed Toml.Value) => given.add field.1 (.field field.2))
    ({} : GivenSettings)
  return (← document.limbs.foldlM (addTables document) given).settings

/-- The settings in a text. A fault that has no place of its own is in the last table. -/
def ofText (text : String) : Except SettingsFault Settings :=
  let place (last : Nat) (fault : DocumentFault) : SettingsFault :=
    let (line, column) := Toml.lineAndColumn text (fault.offset.getD last)
    { cause := fault.cause, keys := fault.keys, line, column }
  match Toml.Document.read text with
  | .error fault => .error (place 0 (malformed fault))
  | .ok document => (ofDocument document).mapError (place document.lastTable)

/-- The settings in the file at `path`. -/
def read (workspace : Workspace) (path : String) : Except Error Settings :=
  match workspace.readText path with
  | .error fault => .error (.io path fault)
  | .ok text => (ofText text).mapError (.settings path)

/-- The settings in the file at `path`, or the defaults if it is missing or malformed. -/
def load (workspace : Workspace) (path : String) : Traced Settings :=
  if workspace.pathExists path then
    match read workspace path with
    | .ok settings => pure settings
    | .error error => { value := {}, events := [.settingsIgnored error] }
  else { value := {}, events := [.noSettingsFile path] }

end Settings

end PascalUnits
