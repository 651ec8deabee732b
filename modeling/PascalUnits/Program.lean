import PascalUnits.CommandLine.Invocation
import PascalUnits.Graph.Chains
import PascalUnits.Project
import PascalUnits.Report
import PascalUnits.Scan.Files
import PascalUnits.SettingsFile
import PascalUnits.SourceTree

/-!
# The program

`Program.run` carries out an invocation in a workspace. Its outcome is what is printed, the
workspace afterwards and, if it fails, why. A report is first written to a file in the directory
for temporary files and then copied to its place, so that a report that cannot be written leaves an
earlier one as it was.
-/

namespace PascalUnits

/-- Why an invocation fails: an error, and whether it came up while a project was indexed. -/
structure Failure where
  error : Error
  whileIndexing : Bool := false
  deriving DecidableEq, Repr

/-- The text of a failure: what was done, the error and what caused it. -/
def Failure.message (failure : Failure) : String :=
  let cause := match failure.error with
    | .io _ fault => ": " ++ fault.message
    | _ => ""
  let context := if failure.whileIndexing then "failed to build dependency index: " else ""
  context ++ failure.error.message ++ cause

/-- What comes of an invocation. -/
structure Outcome where
  output : String := ""
  workspace : Workspace
  failure : Option Failure := none

namespace Program

/-- The settings file that is looked for in the working directory. -/
def defaultSettingsFile : String :=
  "unitgraph.toml"

/-- The settings of an invocation. A file that it names has to be there and well formed. -/
def settings (workspace : Workspace) (path : Option String) : Traced (Except Error Settings) :=
  match path with
  | some path => pure (Settings.read workspace path)
  | none => .ok <$> Settings.load workspace defaultSettingsFile

/-- The project that the arguments of a command describe. -/
def project (workspace : Workspace) (settings : Settings) (sources : SourceArguments) : Project :=
  { roots := sources.roots
    directory := sources.directory
    search := match sources.search with
      | some list => SearchPath.split list
      | none => settings.searchDirectories workspace.searchVariable }

/-- The file of a report whose place is not given. -/
def defaultOutput (roots : List String) : String :=
  UnitName.ofPath (roots.headD "") ++ ".txt"

/-- The temporary file of the report at `path`. -/
def stagingPath (workspace : Workspace) (path : String) : String :=
  Path.join workspace.scratch
    ("unitgraph-" ++ workspace.run ++ "-" ++ (Path.fileName? path).getD "")

/-- Writes the report of an index to a temporary file, copies that to its place and removes it. -/
def writeReport (workspace : Workspace) (index : Index) (path : String) :
    Traced (Workspace × Except Error Unit) := do
  match ReportFormat.ofPath path with
  | .error error => return (workspace, .error error)
  | .ok format =>
    let staged := stagingPath workspace path
    Traced.tell (.stagingReport staged)
    match workspace.write staged [] with
    | .error fault => return (workspace, .error (.io staged fault))
    | .ok opened =>
      let contents := Bytes.ofText (← Report.write index format)
      match opened.write staged contents >>= fun written => written.write path contents with
      | .error fault => return (opened.remove staged, .error (.io path fault))
      | .ok copied => return (copied.remove staged, .ok ())

/-- Prints the chains that lead to a unit, after its name. -/
def explain (workspace : Workspace) (index : Index) (target : String) : Traced Outcome := do
  let unit := UnitName.ofPath target
  let graph ← UsesGraph.trace index
  if graph.contains unit then
    let chains := (graph.why unit).map UsesGraph.showChain
    return { output := Report.lines (index.displayName unit :: chains), workspace }
  else return { workspace, failure := some { error := .unitNotFound unit } }

/-- Writes a report and prints its place. -/
def report (workspace : Workspace) (index : Index) (path : String) : Traced Outcome := do
  let (workspace, written) ← writeReport workspace index path
  match written with
  | .error error => return { workspace, failure := some { error } }
  | .ok () =>
    Traced.tell (.reportWritten path index.uses.size)
    return { output := Report.lines [path], workspace }

/-- Prints the cycles of interface uses. -/
def showCycles (workspace : Workspace) (index : Index) : Traced Outcome := do
  let cycles := (← UsesGraph.trace index).cycles
  let found := if cycles.isEmpty then ["No circular interface uses"] else Report.cycleLines cycles
  return { output := Report.lines found, workspace }

/-- The results of reading files, less those that failed; each of these is an event. -/
def keepRead (results : List (Except Error FileTokens)) : Traced (List FileTokens) :=
  { value := results.filterMap (·.toOption)
    events := results.filterMap fun
      | .ok _ => none
      | .error error => some (.fileSkipped error) }

/-- The lines of the tokens of a file, followed by those of the faults in it. -/
def tokenLines (file : FileTokens) : List String :=
  (file.tokens.map fun found =>
    "\t".intercalate [found.position.display, found.token.spelling,
      Text.quoted (Bytes.latin found.literal)]) ++
  file.diagnostics.map fun diagnostic =>
    "\t".intercalate [diagnostic.position.display, "ERROR", diagnostic.fault.message]

/-- A position as a JSON value. -/
def positionJson (position : Position) : JsonValue :=
  .object [("filename", .text position.filename), ("offset", .number position.offset),
    ("line", .number position.line), ("column", .number position.column)]

/-- The tokens and faults of a file as a JSON value. -/
def fileJson (file : FileTokens) : JsonValue :=
  .object [
    ("path", .text file.path),
    ("tokens", .array (file.tokens.map fun found =>
      .object [("position", positionJson found.position), ("token", .text found.token.spelling),
        ("literal", .text (Bytes.latin found.literal))])),
    ("errors", .array (file.diagnostics.map fun diagnostic =>
      .object [("position", positionJson diagnostic.position),
        ("message", .text diagnostic.fault.message)])),
    ("truncated", .bool file.truncated)]

/-- Prints the tokens of files. -/
def showTokens (workspace : Workspace) (paths : List String) (comments : Comments) (json : Bool) :
    Traced Outcome := do
  let files ← keepRead (tokenizeFiles workspace comments paths)
  if json then
    return { output := Report.lines [(JsonValue.array (files.map fileJson)).pretty], workspace }
  else
    Traced.tellAll ((files.filter (·.truncated)).map fun file => .outputTruncated file.path)
    return { output := Report.lines (files.flatMap tokenLines), workspace }

/-- Prints a search path that covers every directory with sources. -/
def showSearchPath (workspace : Workspace) (settings : Settings) (root : String) :
    Traced Outcome := do
  Traced.tell (.sourcesCounted (SourceTree.count workspace settings root).summary)
  let directories := SearchPath.ofDirectories (SourceTree.directories workspace root)
  return { output := Report.lines [SearchPath.absolute workspace.here.path directories], workspace }

/-- Goes on with the index of the project that the arguments of a command describe. -/
def withIndex (workspace : Workspace) (settings : Settings) (sources : SourceArguments)
    (next : Index → Traced Outcome) : Traced Outcome := do
  match ← (project workspace settings sources).index workspace settings with
  | .error error => return { workspace, failure := some { error, whileIndexing := true } }
  | .ok index => next index

/-- Carries out a command. -/
def runCommand (workspace : Workspace) (settings : Settings) : Command → Traced Outcome
  | .uses sources output why interfaceOnly =>
    let settings := { settings with interfaceOnly := settings.interfaceOnly || interfaceOnly }
    withIndex workspace settings sources fun index =>
      match why with
      | some target => explain workspace index target
      | none => report workspace index (output.getD (defaultOutput sources.roots))
  | .cycles sources => withIndex workspace settings sources (showCycles workspace)
  | .tokenize files comments json =>
    showTokens workspace files (if comments then .kept else .skipped) json
  | .searchPath root => showSearchPath workspace settings root

/-- Carries out an invocation. -/
def run (workspace : Workspace) (invocation : Invocation) : Traced Outcome := do
  match ← settings workspace invocation.settingsPath with
  | .error error => return { workspace, failure := some { error } }
  | .ok settings => runCommand workspace settings invocation.command

/-- The exit code of the program after an invocation. -/
def exitCode (outcome : Outcome) : Nat :=
  if outcome.failure.isSome then 1 else 0

end Program

end PascalUnits
