import PascalUnits.Graph.Adjacency
import PascalUnits.Index.Basic
import PascalUnits.Text.Distinct

/-!
# The uses graph

A `UsesGraph` has a node for each loaded unit and each unit that one of them uses, and an edge for
each use. Nodes are in the order of the keys of the loaded units, followed by the other units as
they are met; edges go by the unit that uses, those of its interface first. Both go by keys.
-/

namespace PascalUnits

/-- A use of the unit with the key `target` in a part of the unit with the key `source`. -/
structure Use extends Link where
  part : UnitPart
  deriving DecidableEq, Repr

/-- Units and their uses. -/
structure UsesGraph where
  /-- The names of the units, in order. -/
  units : List String
  uses : List Use
  /-- The keys of the units that were asked for. -/
  roots : List String
  deriving Repr

/-- The size of a graph. -/
structure GraphSize where
  units : Nat
  interfaceUses : Nat
  implementationUses : Nat
  roots : Nat
  deriving DecidableEq, Repr

/-- The text of a size. -/
def GraphSize.summary (size : GraphSize) : String :=
  s!"GraphStats \x7b units: {size.units}, interface_edges: {size.interfaceUses}, " ++
    s!"implementation_edges: {size.implementationUses}, roots: {size.roots} \x7d"

namespace UsesGraph

/-- The keys of the units, in order. -/
def keys (graph : UsesGraph) : List String :=
  graph.units.map UnitName.key

/-- The names of the units by their keys. -/
def names (graph : UsesGraph) : NameTable String :=
  graph.units.foldl (fun names unit => names.insert unit unit) .empty

/-- The name for a key among the given ones. -/
def nameIn (names : NameTable String) (key : String) : String :=
  (names.find? key).getD key

/-- Whether the graph has a node for a unit. -/
def contains (graph : UsesGraph) (unit : String) : Bool :=
  graph.keys.contains (UnitName.key unit)

/-- The number of units, of uses of each kind and of roots. -/
def size (graph : UsesGraph) : GraphSize :=
  { units := graph.units.length
    interfaceUses := graph.uses.countP fun use => use.part == .interface
    implementationUses := graph.uses.countP fun use => use.part == .implementation
    roots := graph.roots.length }

/-- The graph of an index. -/
def ofIndex (index : Index) : UsesGraph :=
  let units := Text.distinct
    (index.uses.values.map (·.unit) ++ index.uses.values.flatMap fun uses => uses.edges.map (·.1))
  let keys := Std.TreeSet.ofList (units.map UnitName.key)
  { units
    uses := index.uses.toList.flatMap fun entry =>
      entry.2.edges.map fun use =>
        { source := entry.1, target := UnitName.key use.1, part := use.2 }
    roots := ((Text.distinct index.roots).map UnitName.key).filter keys.contains }

/-- The graph of an index, with the event of its making. -/
def trace (index : Index) : Traced UsesGraph :=
  let graph := ofIndex index
  { value := graph, events := [.graphBuilt graph.size.summary] }

end UsesGraph

end PascalUnits
