import PascalUnits.Graph.Basic

/-!
# Cycles of interface uses

Two units are in one cycle when each leads to the other through uses in interface parts.
`UsesGraph.cycles` lists the groups of units that are in cycles with one another. Their order is
that of a search: it goes to each unit in turn and from a unit to those it uses, the last use
first, and finishes with a unit when it is done with all of those. Units of a group are in the
order in which the search finishes with them, and a group is listed when the search finishes with
its last unit, the leader of the group.

When the search finishes with a leader, it has finished with all that the leader leads to. So the
units are given leaders in the opposite order: the last unit without one leads all units without
one that lead to it.
-/

namespace PascalUnits.UsesGraph

/-- The uses in interface parts. -/
def interfaceLinks (graph : UsesGraph) : List Link :=
  (graph.uses.filter (·.part == .interface)).map (·.toLink)

/-- What a search does next: enter a unit or finish with it. -/
inductive Visit where
  | enter (key : String)
  | leave (key : String)
  deriving DecidableEq, Repr

theorem size_erase_lt {keys : Std.TreeSet String} {key : String} (h : key ∈ keys) :
    (keys.erase key).size < keys.size := by
  have present : keys.contains key = true := h
  have filled := Std.TreeSet.isEmpty_eq_false_of_contains present
  rw [Std.TreeSet.isEmpty_eq_size_eq_zero, beq_eq_false_iff_ne] at filled
  rw [Std.TreeSet.size_erase, if_pos present]
  omega

/-- The keys of the units in the order in which a search finishes with them. It enters only units
that it has not seen. -/
def finishOrder (uses : Adjacency) (unseen : Std.TreeSet String) (todo : List Visit) :
    List String :=
  match todo with
  | [] => []
  | .leave key :: rest => key :: finishOrder uses unseen rest
  | .enter key :: rest =>
    if key ∈ unseen then
      finishOrder uses (unseen.erase key) ((uses.targets key).map .enter ++ .leave key :: rest)
    else finishOrder uses unseen rest
termination_by (unseen.size, todo.length)
decreasing_by
  · exact Prod.Lex.right _ (by simp)
  · exact Prod.Lex.left _ _ (size_erase_lt ‹_›)
  · exact Prod.Lex.right _ (by simp)

/-- The keys of all units in the order in which the search finishes with them. -/
def searchOrder (graph : UsesGraph) : List String :=
  finishOrder (.ofLinks graph.interfaceLinks) (.ofList graph.keys) (graph.keys.map .enter)

/-- Which unit leads which, as far as that is known. -/
structure Leaders where
  /-- The units without a leader. -/
  unled : Std.TreeSet String
  /-- The leaders of the other units. -/
  table : Std.TreeMap String String := ∅

/-- Makes a unit without a leader the leader of all units without one that lead to it. -/
def Leaders.add (users : Adjacency) (leaders : Leaders) (key : String) : Leaders :=
  if key ∈ leaders.unled then
    (finishOrder users leaders.unled [.enter key]).foldl
      (fun leaders member =>
        { unled := leaders.unled.erase member, table := leaders.table.insert member key })
      leaders
  else leaders

/-- The leaders of the units, which `order` lists as the search finishes with them. -/
def leaders (graph : UsesGraph) (order : List String) : Std.TreeMap String String :=
  let users := Adjacency.ofLinks (graph.interfaceLinks.map (·.reverse))
  (order.reverse.foldl (Leaders.add users) { unled := .ofList order }).table

/-- The groups of units that lead to each other, each listed when the search finishes with it. -/
def groups (graph : UsesGraph) : List (List String) :=
  let order := graph.searchOrder
  let leaders := graph.leaders order
  let members := Adjacency.ofLinks (order.reverse.map fun key =>
    { source := leaders.getD key key, target := key })
  (order.map members.targets).filter fun group => !group.isEmpty

/-- The groups of more than one unit, by the names of the units. -/
def cycles (graph : UsesGraph) : List (List String) :=
  let names := graph.names
  (graph.groups.filter fun group => 1 < group.length).map (·.map (nameIn names))

end PascalUnits.UsesGraph
