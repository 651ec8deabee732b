import PascalUnits.Graph.Cycles

/-!
# Reports

A report writes an index as text, unit by unit in the order of the keys. A used unit is shown by the
name under which it was loaded, whatever the spelling of the use.
-/

namespace PascalUnits

/-- The forms of a report. -/
inductive ReportFormat where
  | text
  | dot
  | trivialGraph
  | edgeList
  deriving DecidableEq, Repr

/-- The form that the extension of a path asks for. -/
def ReportFormat.ofPath (path : String) : Except Error ReportFormat :=
  match Text.lower ((Path.extension? path).getD "") with
  | "txt" => .ok .text
  | "dot" => .ok .dot
  | "tgf" => .ok .trivialGraph
  | "glay" => .ok .edgeList
  | extension => .error (.unknownFormat extension)

namespace Report

/-- Lines, each with its end. -/
def lines (items : List String) : String :=
  String.join (items.map (· ++ "\n"))

/-- The loaded units with their uses, in the order of the keys. -/
def units (index : Index) : List UnitUses :=
  index.uses.values

/-- A listing of cycles, or nothing if there are none. -/
def cycleLines (cycles : List (List String)) : List String :=
  if cycles.isEmpty then []
  else "Circular interface uses:" :: cycles.map (fun cycle => "\t" ++ ", ".intercalate cycle)

/-- The line of a use in the listing of its unit. -/
def useLine (index : Index) (use : String × UnitPart) : String :=
  match use.2 with
  | .interface => "\t+ " ++ index.displayName use.1
  | .implementation => "\t- " ++ index.displayName use.1

/-- A listing of the units with their uses, after the given cycles. -/
def text (index : Index) (cycles : List (List String)) : String :=
  let heading := if cycles.isEmpty then [] else cycleLines cycles ++ [""]
  lines (heading ++ (units index).flatMap fun uses =>
    ("# " ++ uses.unit) :: uses.edges.map (useLine index) ++ [""])

/-- The line of a use in a graph description. -/
def dotLine (index : Index) (unit : String) (use : String × UnitPart) : String :=
  match use.2 with
  | .interface => "\t" ++ unit ++ " -> " ++ index.displayName use.1 ++ ";"
  | .implementation =>
    "\t" ++ unit ++ " -> " ++ index.displayName use.1 ++ " [style=dashed;dir=both;weight=0];"

/-- A graph description, with the uses of implementation parts dashed. -/
def dot (index : Index) : String :=
  lines ("digraph G\x7b" ::
    ((units index).flatMap fun uses => uses.edges.map (dotLine index uses.unit)) ++ ["\x7d"])

/-- The number of a loaded unit: its place in the order of the keys, from one. -/
def number? (index : Index) (key : String) : Option Nat :=
  (index.uses.keys.findIdx? (· == key)).map (· + 1)

/-- The numbered units, then the uses of loaded units as pairs of numbers. -/
def trivialGraph (index : Index) : String :=
  let nodes := (units index).mapIdx fun place uses => s!"{place + 1} {uses.unit}"
  let edges := (units index).mapIdx fun place uses =>
    uses.edges.filterMap fun use =>
      (number? index (UnitName.key use.1)).map fun target => s!"{place + 1} {target}"
  lines (nodes ++ "#" :: edges.flatten)

/-- The line of a use in a plain list. -/
def edgeLine (index : Index) (unit : String) (use : String × UnitPart) : String :=
  "\t" ++ unit ++ " -> " ++ index.displayName use.1 ++ ";"

/-- A plain list of all uses. -/
def edgeList (index : Index) : String :=
  lines ((units index).flatMap fun uses => uses.edges.map (edgeLine index uses.unit))

/-- The report of an index in the given form. -/
def write (index : Index) : ReportFormat → Traced String
  | .text => do return text index (← UsesGraph.trace index).cycles
  | .dot => pure (dot index)
  | .trivialGraph => pure (trivialGraph index)
  | .edgeList => pure (edgeList index)

end Report

end PascalUnits
