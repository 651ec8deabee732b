import PascalUnits.Text.Split

/-!
# Parameters of a command

A command has options and possibly positional arguments. `Level.read` reads arguments up to their
end or up to the name of a subcommand. An option is given by its long name, as in `--root src` or
`--root=src`, or by its short one, as in `-r src`, `-rsrc` or `-r=src`; short flags may stand
together. After `--` all arguments are positional. An option may be given once.

The values of an option or of a run of positional arguments are looked at when the next parameter
begins or the arguments end. So an argument that means nothing is noticed before a bad value right
in front of it.
-/

namespace PascalUnits

/-- Why arguments are not carried out. -/
inductive UsageError where
  | missingRequiredArgument
  | unknownArgument
  | invalidSubcommand
  | argumentConflict
  | invalidValue
  | tooManyValues
  | missingSubcommand
  | displayHelp
  | displayHelpOnMissingArgumentOrSubcommand
  deriving DecidableEq, Repr

namespace UsageError

/-- The name of a usage error. -/
def name : UsageError → String
  | .missingRequiredArgument => "MissingRequiredArgument"
  | .unknownArgument => "UnknownArgument"
  | .invalidSubcommand => "InvalidSubcommand"
  | .argumentConflict => "ArgumentConflict"
  | .invalidValue => "InvalidValue"
  | .tooManyValues => "TooManyValues"
  | .missingSubcommand => "MissingSubcommand"
  | .displayHelp => "DisplayHelp"
  | .displayHelpOnMissingArgumentOrSubcommand => "DisplayHelpOnMissingArgumentOrSubcommand"

/-- The exit code of a program that stops for a usage error. Asking for help is none. -/
def exitCode : UsageError → Nat
  | .displayHelp => 0
  | _ => 2

end UsageError

namespace CommandLine

/-- What an option takes: nothing, any text, or a text that is not empty. -/
inductive Takes where
  | nothing
  | help
  | text
  | path
  deriving DecidableEq, Repr

/-- An option of a command. -/
structure Parameter where
  long : String
  short : Option Char := none
  takes : Takes := .nothing
  deriving DecidableEq, Repr

/-- Whether an option takes a value. -/
def Parameter.takesValue (parameter : Parameter) : Bool :=
  parameter.takes == .text || parameter.takes == .path

/-- The positional arguments of a command. -/
structure Positionals where
  takes : Takes
  many : Bool
  deriving DecidableEq, Repr

/-- What a command accepts. -/
structure Level where
  options : List Parameter
  positionals : Option Positionals := none
  subcommands : List String := []
  deriving Repr

/-- A parameter whose values have not been looked at. -/
inductive Pending where
  | option (parameter : Parameter) (value : Option String)
  | positionals (takes : Takes) (values : List String)
  deriving DecidableEq, Repr

/-- What has been given: options by their long names, and positional arguments. -/
structure Given where
  options : List (String × String) := []
  positionals : List String := []
  deriving DecidableEq, Repr

namespace Given

/-- The value of an option. -/
def value? (given : Given) (long : String) : Option String :=
  given.options.lookup long

/-- Whether a flag is given. -/
def has (given : Given) (long : String) : Bool :=
  (given.value? long).isSome

/-- Whether a value is right for what takes it. -/
def admits (takes : Takes) (value : String) : Bool :=
  takes != .path || value != ""

/-- Adds an option with its value. -/
def addOption (given : Given) (parameter : Parameter) (value : String) :
    Except UsageError Given :=
  if given.has parameter.long then .error .argumentConflict
  else if !admits parameter.takes value then .error .invalidValue
  else .ok { given with options := given.options ++ [(parameter.long, value)] }

end Given

/-- How far the arguments of a command have been read. -/
structure Progress where
  given : Given := {}
  pending : Option Pending := none
  deriving DecidableEq, Repr

namespace Progress

/-- Looks at the values of the pending parameter. -/
def settle (progress : Progress) : Except UsageError Given :=
  match progress.pending with
  | none => .ok progress.given
  | some (.option _ none) => .error .invalidValue
  | some (.option parameter (some value)) => progress.given.addOption parameter value
  | some (.positionals takes values) =>
    if values.all (Given.admits takes) then
      .ok { progress.given with positionals := progress.given.positionals ++ values }
    else .error .invalidValue

/-- The option that waits for its value. -/
def awaiting? (progress : Progress) : Option Parameter :=
  match progress.pending with
  | some (.option parameter none) => some parameter
  | _ => none

/-- Whether a positional argument has been read. -/
def hasPositional (progress : Progress) : Bool :=
  match progress.pending with
  | some (.positionals ..) => true
  | _ => !progress.given.positionals.isEmpty

/-- Takes a flag. -/
def flag (progress : Progress) (parameter : Parameter) : Except UsageError Progress := do
  let given ← progress.settle
  if parameter.takes = .help then .error .displayHelp
  else return { given := ← given.addOption parameter "" }

/-- Takes an option with the value that is attached to it. -/
def attached (progress : Progress) (parameter : Parameter) (value : String) :
    Except UsageError Progress := do
  return { given := ← (← progress.settle).addOption parameter value }

/-- Takes an option whose value is to follow. -/
def detached (progress : Progress) (parameter : Parameter) : Except UsageError Progress := do
  return { given := ← progress.settle, pending := some (.option parameter none) }

/-- Takes a positional argument. -/
def positional (level : Level) (trailing : Bool) (progress : Progress) (argument : String) :
    Except UsageError Progress := do
  match level.positionals with
  | none =>
    if trailing && level.subcommands.contains argument then .error .unknownArgument
    else .error .invalidSubcommand
  | some positionals =>
    if !positionals.many && progress.hasPositional then .error .unknownArgument
    else
      match progress.pending with
      | some (.positionals takes values) =>
        return { progress with pending := some (.positionals takes (values ++ [argument])) }
      | _ =>
        return {
          given := ← progress.settle
          pending := some (.positionals positionals.takes [argument]) }

/-- Takes a long option, given without its dashes. -/
def long (level : Level) (progress : Progress) (text : String) : Except UsageError Progress :=
  let name := String.ofList (text.toList.takeWhile (· != '='))
  let value? := (text.toList.dropWhile (· != '=')).tail?.map String.ofList
  match level.options.find? (·.long == name) with
  | none => .error .unknownArgument
  | some parameter =>
    match parameter.takesValue, value? with
    | true, some value => progress.attached parameter value
    | true, none => progress.detached parameter
    | false, some _ => .error .tooManyValues
    | false, none => progress.flag parameter

/-- Takes short options that stand together, given without their dash. -/
def short (level : Level) (progress : Progress) : List Char → Except UsageError Progress
  | [] => .ok progress
  | char :: rest =>
    match level.options.find? (·.short == some char) with
    | none => .error .unknownArgument
    | some parameter =>
      if parameter.takesValue then
        match rest with
        | [] => progress.detached parameter
        | '=' :: value => progress.attached parameter (String.ofList value)
        | value => progress.attached parameter (String.ofList value)
      else do short level (← progress.flag parameter) rest

end Progress

/-- A subcommand with the arguments after it. -/
structure Subcommand where
  name : String
  arguments : List String
  deriving DecidableEq, Repr

/-- Reads arguments up to their end or up to a subcommand. -/
def Level.read (level : Level) (trailing : Bool) (progress : Progress) :
    List String → Except UsageError (Progress × Option Subcommand)
  | [] => .ok (progress, none)
  | argument :: rest => do
    if trailing then
      read level true (← progress.positional level true argument) rest
    else if progress.awaiting?.isNone && level.subcommands.contains argument then
      .ok (progress, some { name := argument, arguments := rest })
    else if argument = "--" then read level true progress rest
    else
      match argument.toList, progress.awaiting? with
      | '-' :: '-' :: text, _ => read level false (← progress.long level (String.ofList text)) rest
      | '-' :: first :: text, _ => read level false (← progress.short level (first :: text)) rest
      | _, some parameter =>
        read level false { progress with pending := some (.option parameter (some argument)) } rest
      | _, none => read level false (← progress.positional level false argument) rest

end CommandLine

end PascalUnits
