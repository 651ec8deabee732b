import PascalUnits.CommandLine.Parameters

/-!
# Invocations

`Invocation.parse` reads the arguments of the program. There are four commands: `uses` and `cycles`
work on the units of a project, `tokenize` on source files, and `search-path` on a directory. The
options for the settings file and for more events may stand before or after the name of the command;
the one after it counts.
-/

namespace PascalUnits

/-- Where the units of a project are. -/
structure SourceArguments where
  roots : List String
  search : Option String := none
  directory : Option String := none
  deriving DecidableEq, Repr

/-- A command with its arguments. -/
inductive Command where
  | uses (sources : SourceArguments) (output why : Option String) (interfaceOnly : Bool)
  | cycles (sources : SourceArguments)
  | tokenize (files : List String) (comments json : Bool)
  | searchPath (root : String)
  deriving DecidableEq, Repr

/-- What the program is asked to do. -/
structure Invocation where
  verbose : Bool := false
  settingsPath : Option String := none
  command : Command
  deriving DecidableEq, Repr

namespace CommandLine

/-- The options of every command. -/
def sharedOptions : List Parameter :=
  [{ long := "verbose", short := some 'v' },
   { long := "config", takes := .path },
   { long := "help", short := some 'h', takes := .help }]

/-- The options that say where units are. -/
def sourceOptions : List Parameter :=
  [{ long := "search", short := some 's', takes := .text },
   { long := "root", short := some 'r', takes := .path }]

/-- What may stand before the name of a command. -/
def topLevel : Level :=
  { options := sharedOptions
    subcommands := ["uses", "cycles", "tokenize", "search-path", "help"] }

/-- What `uses` accepts. -/
def usesLevel : Level :=
  { options := sharedOptions ++ sourceOptions ++
      [{ long := "out", short := some 'o', takes := .path },
       { long := "why", short := some 'w', takes := .text },
       { long := "interface" }]
    positionals := some { takes := .text, many := true } }

/-- What `cycles` accepts. -/
def cyclesLevel : Level :=
  { options := sharedOptions ++ sourceOptions
    positionals := some { takes := .text, many := true } }

/-- What `tokenize` accepts. -/
def tokenizeLevel : Level :=
  { options := sharedOptions ++
      [{ long := "comments", short := some 'c' }, { long := "json" }]
    positionals := some { takes := .path, many := true } }

/-- What `search-path` accepts. -/
def searchPathLevel : Level :=
  { options := sharedOptions, positionals := some { takes := .path, many := false } }

/-- Everything given to a command that has no subcommands. There has to be a positional argument. -/
def Level.readAll (level : Level) (arguments : List String) : Except UsageError Given := do
  let (progress, _) ← level.read false {} arguments
  let given ← progress.settle
  if given.positionals.isEmpty then .error .missingRequiredArgument else return given

/-- The arguments that say where units are. -/
def Given.sources (given : Given) : SourceArguments :=
  { roots := given.positionals
    search := given.value? "search"
    directory := given.value? "root" }

/-- Reads a command and its arguments. -/
def readCommand (subcommand : Subcommand) : Except UsageError (Given × Command) := do
  match subcommand.name with
  | "uses" =>
    let given ← usesLevel.readAll subcommand.arguments
    return (given, .uses given.sources (given.value? "out") (given.value? "why")
      (given.has "interface"))
  | "cycles" =>
    let given ← cyclesLevel.readAll subcommand.arguments
    return (given, .cycles given.sources)
  | "tokenize" =>
    let given ← tokenizeLevel.readAll subcommand.arguments
    return (given, .tokenize given.positionals (given.has "comments") (given.has "json"))
  | "search-path" =>
    let given ← searchPathLevel.readAll subcommand.arguments
    return (given, .searchPath (given.positionals.headD ""))
  | _ =>
    match subcommand.arguments with
    | [] => .error .displayHelp
    | [name] =>
      if topLevel.subcommands.contains name then .error .displayHelp else .error .invalidSubcommand
    | _ => .error .invalidSubcommand

end CommandLine

/-- Reads the arguments of the program, without its name. -/
def Invocation.parse (arguments : List String) : Except UsageError Invocation := do
  match ← CommandLine.topLevel.read false {} arguments with
  | (progress, none) =>
    if (← progress.settle).options.isEmpty then .error .displayHelpOnMissingArgumentOrSubcommand
    else .error .missingSubcommand
  | (progress, some subcommand) =>
    let (given, command) ← CommandLine.readCommand subcommand
    let before ← progress.settle
    return {
      verbose := before.has "verbose" || given.has "verbose"
      settingsPath := (given.value? "config").or (before.value? "config")
      command }

end PascalUnits
