import PascalUnits.Program

/-!
# The command line program

The program reads what an invocation may need into a workspace, carries the invocation out there,
and then does outside what has been done inside: it prints, writes the files that have changed and
reports events and failures.
-/

namespace PascalUnits

/-- The names on the way to a path from the root directory. -/
def lexicalLocation (here path : String) : Location :=
  (Path.segments (Path.join here path)).foldl
    (fun location name => if name = ".." then location.dropLast else location ++ [name]) []

/-- The files and directories that an invocation may read, and whether all that is below them. -/
def neededPaths (workspace : Workspace) (invocation : Invocation) : List (String × Bool) :=
  let sources (sources : SourceArguments) : List (String × Bool) :=
    let search := sources.search.or workspace.searchVariable
    sources.roots.map (·, false) ++ sources.directory.toList.map (·, true) ++
      (SearchPath.split (search.getD "")).map (·, true)
  match invocation.command with
  | .uses arguments output _ _ =>
    sources arguments ++ [((output.getD (Program.defaultOutput arguments.roots)), false)]
  | .cycles arguments => sources arguments
  | .tokenize files _ _ => files.map (·, false)
  | .searchPath root => [(root, true)]

/-- Adds a place and the directories on the way to it. -/
def addPlace (tree : FileTree) (location : Location) (node : Node) : FileTree :=
  match node with
  | .directory => tree.addDirectory location
  | .file contents => (tree.addDirectory location.dropLast).write location contents

/-- Reads what is at a place, and all that is below it if asked to. Links below it are not
followed, and what cannot be read is left out. -/
partial def readPlace (deep : Bool) (tree : FileTree) (location : Location) : IO FileTree := do
  try
    let place := (← IO.currentDir) / location.path
    if ← place.isDir then
      let tree := addPlace tree location .directory
      if !deep then return tree
      (← place.readDir).foldlM
        (fun tree entry => do
          match (← entry.path.symlinkMetadata).type with
          | .symlink => return tree
          | _ => readPlace true tree (location ++ [entry.fileName])) tree
    else if ← place.pathExists then
      return addPlace tree location (.file (← IO.FS.readBinFile place).toList)
    else return tree
  catch _ => return tree

/-- Reads what a path leads to and the directory around it. -/
def readPath (deep : Bool) (workspace : Workspace) (path : String) : IO Workspace := do
  let location := lexicalLocation workspace.here.path path
  let tree ← readPlace false workspace.tree location.dropLast
  return { workspace with tree := ← readPlace deep tree location }

/-- The surroundings of the program, without the files that it works on. -/
def surroundings : IO Workspace := do
  let here := lexicalLocation "/" (← IO.currentDir).toString
  let workspace : Workspace :=
    { tree := FileTree.empty.addDirectory here
      here
      systemScratch := (← IO.getEnv "TMPDIR").getD "/tmp"
      searchVariable := ← IO.getEnv "DELPHI_SEARCH"
      scratchVariable := ← IO.getEnv "DELPHI_TEMP"
      run := toString (← IO.monoNanosNow) }
  readPath false workspace workspace.scratch

/-- Reads what an invocation may need. -/
def prepare (invocation : Invocation) : IO Workspace := do
  let settingsPath := invocation.settingsPath.getD Program.defaultSettingsFile
  let workspace ← readPath false (← surroundings) settingsPath
  let search := match (Program.settings workspace invocation.settingsPath).value with
    | .ok settings => settings.search
    | .error _ => []
  (neededPaths workspace invocation ++ search.map (·, true)).foldlM
    (fun workspace needed => readPath needed.2 workspace needed.1) workspace

/-- Writes the files that are not as they were. -/
def writeBack (before after : FileTree) : IO Unit := do
  for (location, contents) in after.files do
    if before.node? location ≠ some (.file contents) then
      IO.FS.writeBinFile location.path contents.toByteArray

/-- The line that reports an event. -/
def eventLine (event : Event) : String :=
  let field (name : String) : FieldValue → String
    | .text text => " " ++ name ++ "=" ++ text
    | .number n => " " ++ name ++ "=" ++ toString n
  event.level.name ++ " " ++ event.message ++
    String.join (event.fields.map fun entry => field entry.1 entry.2)

/-- Whether an event is reported. -/
def isReported (verbose : Bool) (event : Event) : Bool :=
  verbose || event.level != .debug

/-- Carries an invocation out, and gives the exit code. -/
def perform (invocation : Invocation) : IO Nat := do
  let workspace ← prepare invocation
  let traced := Program.run workspace invocation
  for event in traced.events.filter (isReported invocation.verbose) do
    IO.eprintln (eventLine event)
  writeBack workspace.tree traced.value.workspace.tree
  IO.print traced.value.output
  for failure in traced.value.failure do
    IO.eprintln ("Error: " ++ failure.message)
  return Program.exitCode traced.value

end PascalUnits

/-- Runs the program. -/
def main (arguments : List String) : IO UInt32 := do
  match PascalUnits.Invocation.parse arguments with
  | .error error =>
    IO.eprintln ("Usage: " ++ error.name)
    return error.exitCode.toUInt32
  | .ok invocation => return (← PascalUnits.perform invocation).toUInt32
