import PascalUnits.Event
import PascalUnits.NameTable
import PascalUnits.Scan.Drive
import PascalUnits.UnitUses
import PascalUnits.Workspace

/-!
# What is found in the source of a unit

`Source.findings` reads the file of a unit and lists, in the order of the text, every identifier
with the part of the unit it stands in and every event on the way. An include directive puts the
findings of the include file in its place. An include file begins in the part in which its
directive stands; the part it ends in does not matter to the file that includes it. Directives nest
at most as deep as `depth` allows.
-/

namespace PascalUnits

/-- An identifier in a part of a unit, or an event. -/
inductive Finding where
  | mention (part : UnitPart) (name : String)
  | event (event : Event)
  deriving DecidableEq, Repr

namespace Source

/-- Whether a directive includes a file. -/
def isInclude (directive : String) : Bool :=
  let text := (Text.lower directive).toList
  "\x7b$i ".toList.isPrefixOf text || "\x7b$include ".toList.isPrefixOf text

/-- Characters that may surround the name in a directive. -/
def surroundsName (char : Char) : Bool :=
  char == '\x7b' || char == '\x7d' || char == '\x27' || char == '"' || char == ' '

/-- The name of the file that a directive includes: what follows the first space. -/
def includeName (directive : String) : String :=
  Text.trim surroundsName (String.ofList (directive.toList.dropWhile (· != ' ')))

/-- How far a file has been read: the part of the unit, and what was found, the latest first. -/
structure Progress where
  part : UnitPart
  latestFirst : List Finding := []

/-- Adds findings to those of a file. -/
def Progress.add (progress : Progress) (findings : List Finding) : Progress :=
  { progress with latestFirst := findings.reverse ++ progress.latestFirst }

/-- Adds the event of a malformed token. -/
def noteFault (path : String) (diagnostic : Diagnostic) (progress : Progress) : Progress :=
  progress.add
    [.event (.malformedToken path diagnostic.position.display diagnostic.fault.message)]

/-- Adds what a token contributes. `follow` gives the findings of an include directive. -/
def noteToken (follow : UnitPart → String → List Finding) (token : Token) (literal : Bytes)
    (progress : Progress) : ForInStep Progress :=
  .yield <|
    if token = .directive ∧ isInclude (Bytes.latin literal) then
      progress.add (follow progress.part (Bytes.latin literal))
    else if token = .word .implementation then { progress with part := .implementation }
    else if token = .identifier then progress.add [.mention progress.part (Bytes.latin literal)]
    else progress

/-- The findings of one file that begins in `part`. -/
def fileFindings (workspace : Workspace) (follow : UnitPart → String → List Finding)
    (part : UnitPart) (path : String) : List Finding :=
  match workspace.read path with
  | .error fault => [.event (.sourceUnreadable path fault)]
  | .ok source =>
    let outcome := scan source .skipped (noteFault path) (noteToken follow) { part }
    outcome.1.latestFirst.reverse ++
      match outcome.2 with
      | .ok () => []
      | .error error => [.event (.scanAborted path error)]

/-- The findings of a file of the unit `unit`, with include directives followed `depth` deep. -/
def findings (workspace : Workspace) (includes : NameTable String) (unit : String) :
    Nat → UnitPart → String → List Finding
  | 0, part, path =>
    fileFindings workspace (fun _ directive =>
      [.event (.includeTooDeep (includeName directive) unit)]) part path
  | depth + 1, part, path =>
    fileFindings workspace (fun part directive =>
      match includes.find? (UnitName.ofPath (includeName directive)) with
      | some file => findings workspace includes unit depth part file
      | none => [.event (.includeUnknown (includeName directive) directive)]) part path

/-- The events among findings. -/
def events (findings : List Finding) : List Event :=
  findings.filterMap fun
    | .event event => some event
    | .mention .. => none

/-- The identifiers among findings, with their parts. -/
def mentions (findings : List Finding) : List (UnitPart × String) :=
  findings.filterMap fun
    | .mention part name => some (part, name)
    | .event _ => none

end Source

end PascalUnits
