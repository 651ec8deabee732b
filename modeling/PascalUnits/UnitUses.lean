import PascalUnits.Text.Json
import PascalUnits.UnitName

/-!
# The units that a unit uses

A unit has an interface part and an implementation part, and uses other units from both. `UnitUses`
lists them for each part, in the order of their keys and without repetition.
-/

namespace PascalUnits

/-- The parts of a unit, and so the kinds of use. -/
inductive UnitPart where
  | interface
  | implementation
  deriving DecidableEq, Repr

/-- The name of a part. -/
def UnitPart.name : UnitPart → String
  | .interface => "interface"
  | .implementation => "implementation"

/-- The part with the given name. -/
def UnitPart.ofName? : String → Option UnitPart
  | "interface" => some .interface
  | "implementation" => some .implementation
  | _ => none

/-- A unit and what it uses from each of its parts. -/
structure UnitUses where
  unit : String
  interface : List String := []
  implementation : List String := []
  deriving DecidableEq, Repr, Inhabited

namespace UnitUses

/-- Records that `name` is used from `part`. -/
def add (uses : UnitUses) (part : UnitPart) (name : String) : UnitUses :=
  match part with
  | .interface => { uses with interface := UnitName.insert name uses.interface }
  | .implementation => { uses with implementation := UnitName.insert name uses.implementation }

/-- Every use with its kind, those of the interface first. -/
def edges (uses : UnitUses) : List (String × UnitPart) :=
  uses.interface.map (·, .interface) ++ uses.implementation.map (·, .implementation)

/-- Whether nothing is used. -/
def isEmpty (uses : UnitUses) : Bool :=
  uses.interface.isEmpty && uses.implementation.isEmpty

/-- The uses that a JSON value stands for: an object with a field for each part, or an array of the
three in order. Other fields of an object mean nothing. -/
def ofJson? (value : JsonValue) : Option UnitUses := do
  match value with
  | .array [unit, interface, implementation] =>
    return {
      unit := ← unit.text?
      interface := ← interface.texts?
      implementation := ← implementation.texts? }
  | value =>
    return {
      unit := ← (← value.field? "unit").text?
      interface := ← (← value.field? "interface").texts?
      implementation := ← (← value.field? "implementation").texts? }

end UnitUses

end PascalUnits
