import PascalUnits.Index.Basic
import PascalUnits.Index.Findings

/-!
# Loading a unit

`Index.load` reads the source of a unit once and records the registered units that it mentions,
other than itself. When only interface parts count, those mentioned in the implementation part are
not recorded but still handed out, so that nothing they need is missed. A unit without a file is
recorded as using nothing.
-/

namespace PascalUnits

/-- What reading a unit gives: its uses, and the mentions that are not recorded. -/
structure Reading where
  uses : UnitUses
  unrecorded : List String := []
  deriving DecidableEq, Repr

namespace Reading

/-- Records a mention, or sets it aside if it does not count. -/
def note (interfaceOnly : Bool) (reading : Reading) (mention : UnitPart × String) : Reading :=
  if mention.1 = .interface ∨ interfaceOnly = false then
    { reading with uses := reading.uses.add mention.1 mention.2 }
  else
    { reading with unrecorded := reading.unrecorded ++ [mention.2] }

/-- The units to look at next: those recorded, then those set aside. -/
def following (reading : Reading) : List String :=
  reading.uses.edges.map (·.1) ++ reading.unrecorded

end Reading

namespace Index

/-- Whether `name` names a registered unit other than `unit`. -/
def counts (index : Index) (unit name : String) : Bool :=
  UnitName.key name != UnitName.key unit && index.unitPaths.contains name

/-- Everything found in the source of `unit`, which is the file at `path`. -/
def sourceFindings (workspace : Workspace) (index : Index) (unit path : String) : List Finding :=
  Source.findings workspace index.includePaths unit index.settings.maxIncludeDepth .interface path

/-- What the findings in the source of `unit` amount to. -/
def reading (index : Index) (unit : String) (findings : List Finding) : Reading :=
  ((Source.mentions findings).filter fun mention => index.counts unit mention.2).foldl
    (Reading.note index.interfaceOnly) { uses := { unit } }

/-- Loads a unit, unless it is loaded already. Gives what was read, if its file is known. -/
def load (workspace : Workspace) (index : Index) (unit : String) :
    Traced (Index × Option Reading) :=
  if index.isLoaded unit then { value := (index, none) }
  else
    match index.unitPaths.find? unit with
    | none =>
      { value := ({ index with uses := index.uses.insert unit { unit } }, none)
        events := [.unitWithoutPath unit] }
    | some path =>
      let findings := index.sourceFindings workspace unit path
      let reading := index.reading unit findings
      { value := ({ index with uses := index.uses.insert unit reading.uses }, some reading)
        events := Source.events findings }

end Index

end PascalUnits
