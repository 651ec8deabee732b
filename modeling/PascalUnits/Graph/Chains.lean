import PascalUnits.Graph.Basic

/-!
# Why a unit is there

A chain leads from a root to a unit, each unit on it using the next one. No unit is on a chain
twice, and only the first one is a root. `UsesGraph.why` lists all chains to a unit.
-/

namespace PascalUnits.UsesGraph

/-- Which units use each unit. -/
def users (graph : UsesGraph) : Adjacency :=
  .ofLinks (graph.uses.map (·.toLink.reverse))

/-- The keys of the units that use the one with the given key, in the order of the uses. A unit may
use it in both parts, one after the other. -/
def dependents (users : Adjacency) (key : String) : List String :=
  (users.targets key).reverse.eraseReps

/-- The chains to the unit with the given key on which all keys are among `free`. -/
def chains (users : Adjacency) (roots : List String) (free : List String) (key : String) :
    List (List String) :=
  if key ∈ free then
    if key ∈ roots then [[key]]
    else
      (dependents users key).flatMap fun source =>
        (chains users roots (free.erase key) source).map (· ++ [key])
  else []
termination_by free.length
decreasing_by
  rename_i isFree _
  rw [List.length_erase_of_mem isFree]
  exact Nat.sub_one_lt_of_lt (List.length_pos_of_mem isFree)

/-- Every chain to a unit, by the names of the units on it. -/
def why (graph : UsesGraph) (unit : String) : List (List String) :=
  let names := graph.names
  (chains graph.users graph.roots graph.keys (UnitName.key unit)).map (·.map (nameIn names))

/-- The text of a chain. -/
def showChain (chain : List String) : String :=
  String.join (chain.map (">" ++ ·))

end PascalUnits.UsesGraph
