import Mathlib.Algebra.GroupWithZero.Nat
import Mathlib.Data.Finset.Card
import PascalUnits.Proofs.Graph.Numbering
import PascalUnits.Proofs.Index.Depth
import PascalUnits.Proofs.Index.History

/-!
# What the graph of an index holds

What is in the graph of an index, counted in the index itself: its nodes are `Index.namedKeys`
(`toFinset_keys`), each use is there as often as it is recorded (`count_uses`), and so the size of
the graph is that of the lists of the index (`size_ofIndex`). The main statement is
`graph_represents_index`. It says the same of the graph that is put together node by node.
-/

namespace PascalUnits

namespace Index

/-- The keys of the loaded units and of all units that they use. -/
def namedKeys (index : Index) : Finset String :=
  (index.uses.keys ++ index.uses.values.flatMap fun uses =>
    (uses.interface ++ uses.implementation).map UnitName.key).toFinset

/-- The keys of the units that were asked for. -/
def rootKeys (index : Index) : Finset String :=
  (index.roots.map UnitName.key).toFinset

/-- How often a use is recorded for the unit that uses. -/
def timesRecorded (index : Index) (use : Use) : Nat :=
  match index.uses.entries[use.source]? with
  | some uses => (uses.keysIn use.part).count use.target
  | none => 0

end Index

/-- The uses of a unit in a part, by keys, are one for each name that is listed for the part. -/
theorem filter_usesByKeys (entry : String × UnitUses) (part : UnitPart) :
    ((usesByKeys entry).filter fun use => use.part == part) =
      (entry.2.keysIn part).map fun target => { source := entry.1, target, part } := by
  cases part <;> simp [usesByKeys, UnitUses.edges, UnitUses.keysIn, List.filter_map,
    Function.comp_def]

/-- So a use is there as often as its name is listed. -/
theorem count_usesByKeys (entry : String × UnitUses) {use : Use} (hsource : use.source = entry.1) :
    (usesByKeys entry).count use = (entry.2.keysIn use.part).count use.target := by
  have hinjective : Function.Injective fun target : String =>
      ({ source := entry.1, target, part := use.part } : Use) := by
    intro first second hsame
    exact congrArg (fun use : Use => use.target) hsame
  have huse : use = { source := entry.1, target := use.target, part := use.part } := by
    rw [← hsource]
  calc (usesByKeys entry).count use
      = ((usesByKeys entry).filter fun other => other.part == use.part).count use :=
        (List.count_filter (p := fun other : Use => other.part == use.part)
          (beq_self_eq_true use.part)).symm
    _ = ((entry.2.keysIn use.part).map fun target =>
          ({ source := entry.1, target, part := use.part } : Use)).count
            { source := entry.1, target := use.target, part := use.part } := by
        rw [filter_usesByKeys, ← huse]
    _ = (entry.2.keysIn use.part).count use.target :=
        List.count_map_of_injective _ _ hinjective _

namespace UsesGraph

variable {index : Index}

/-- The nodes of the graph have the keys that the index names. -/
theorem toFinset_keys (h : index.Keyed) : (ofIndex index).keys.toFinset = index.namedKeys := by
  have hedges : ∀ uses : UnitUses,
      (uses.edges.map (·.1)).map UnitName.key =
        (uses.interface ++ uses.implementation).map UnitName.key := by
    intro uses
    simp [UnitUses.edges, Function.comp_def]
  ext key
  rw [List.mem_toFinset, Index.namedKeys, List.mem_toFinset]
  refine Text.mem_map_lower_distinct.trans ?_
  show key ∈ (index.uses.values.map (·.unit) ++
    index.uses.values.flatMap fun uses => uses.edges.map (·.1)).map UnitName.key ↔ _
  rw [List.map_append, map_key_units h, List.map_flatMap]
  simp only [hedges]

/-- There are as many nodes as keys. -/
theorem length_units (h : index.Keyed) : (ofIndex index).units.length = index.namedKeys.card := by
  rw [← toFinset_keys h, List.toFinset_card_of_nodup (nodup_keys index), keys, List.length_map]

/-- No two nodes have names that differ in letter case only. -/
theorem pairwise_units (index : Index) :
    (ofIndex index).units.Pairwise fun unit other => ¬ Text.sameIgnoringCase unit other := by
  refine (List.pairwise_map.1 (nodup_keys index)).imp ?_
  intro unit other hne hsame
  exact hne (beq_iff_eq.1 hsame)

/-- The graph has each use as often as it is recorded. -/
theorem count_uses (index : Index) (use : Use) :
    (ofIndex index).uses.count use = index.timesRecorded use := by
  rw [NumberedGraph.uses_ofIndex, Index.timesRecorded]
  cases hfound : index.uses.entries[use.source]? with
  | none =>
      refine List.count_eq_zero_of_not_mem fun huse => ?_
      obtain ⟨uses, hentry, -⟩ := mem_uses_iff.1 huse
      rw [NameTable.toList, Std.TreeMap.mem_toList_iff_getElem?_eq_some, hfound] at hentry
      cases hentry
  | some uses =>
      have hentry : (use.source, uses) ∈ index.uses.toList :=
        Std.TreeMap.mem_toList_iff_getElem?_eq_some.2 hfound
      have hsources : ∀ entry, ∀ other ∈ usesByKeys entry, other.source = entry.1 := by
        intro entry other hother
        obtain ⟨_, _, rfl⟩ := List.mem_map.1 hother
        rfl
      have hnodup : (index.uses.toList.map (·.1)).Nodup := by
        rw [← NameTable.keys_eq_map_toList]
        exact index.uses.nodup_keys
      calc (index.uses.toList.flatMap usesByKeys).count use
          = ((index.uses.toList.flatMap usesByKeys).filter fun other =>
              other.source == use.source).count use :=
            (List.count_filter (p := fun other : Use => other.source == use.source)
              (beq_self_eq_true use.source)).symm
        _ = (usesByKeys (use.source, uses)).count use := by
            rw [filter_flatMap_of_nodup hsources hnodup hentry]
        _ = (uses.keysIn use.part).count use.target := count_usesByKeys _ rfl

/-- The uses in a part are as many as the names that are listed for it. -/
theorem countP_part_uses (index : Index) (part : UnitPart) :
    ((ofIndex index).uses.countP fun use => use.part == part) =
      (index.uses.values.map fun uses => (uses.keysIn part).length).sum := by
  have hentry : ∀ entry : String × UnitUses,
      ((usesByKeys entry).countP fun use => use.part == part) = (entry.2.keysIn part).length := by
    intro entry
    rw [List.countP_eq_length_filter, filter_usesByKeys, List.length_map]
  rw [NumberedGraph.uses_ofIndex, List.countP_flatMap, NameTable.values_eq_map_toList,
    List.map_map]
  exact congrArg List.sum (List.map_congr_left fun entry _ => hentry entry)

/-- The roots of the graph are the keys that were asked for and are named. -/
theorem toFinset_roots (h : index.Keyed) :
    (ofIndex index).roots.toFinset = index.rootKeys ∩ index.namedKeys := by
  ext key
  rw [List.mem_toFinset, mem_roots_iff, Finset.mem_inter, ← toFinset_keys h, List.mem_toFinset,
    Index.rootKeys, List.mem_toFinset, List.mem_map, and_comm]

/-- The size of the graph in terms of the index. -/
theorem size_ofIndex (h : index.Keyed) :
    (ofIndex index).size =
      { units := index.namedKeys.card
        interfaceUses := (index.uses.values.map (·.interface.length)).sum
        implementationUses := (index.uses.values.map (·.implementation.length)).sum
        roots := (index.rootKeys ∩ index.namedKeys).card } := by
  rw [size, length_units h, countP_part_uses, countP_part_uses, ← toFinset_roots h,
    List.toFinset_card_of_nodup (nodup_roots index)]
  simp only [UnitUses.keysIn, List.length_map]

end UsesGraph

open UsesGraph

/-- The graph of an index represents it, whatever was done with the index before. There is one node
for each key of a loaded unit or of a recorded use, no two nodes have names that differ in letter
case only, and that of a loaded unit has the name under which it was loaded. By keys, each use is
there as often as it is recorded for the unit that uses. The roots are the units asked for that
have nodes, and the size is that of the lists. A graph of numbered nodes can be put together node by
node and use by use, and shows the same. -/
theorem graph_represents_index {index : Index} (h : index.Reached) :
    (ofIndex index).keys.Nodup ∧
    (∀ key, key ∈ (ofIndex index).keys ↔ key ∈ index.namedKeys) ∧
    (∀ unit, (ofIndex index).contains unit ↔ UnitName.key unit ∈ index.namedKeys) ∧
    (ofIndex index).units.Pairwise (fun unit other => ¬ Text.sameIgnoringCase unit other) ∧
    (∀ key uses, index.uses.entries[key]? = some uses →
      uses.unit ∈ (ofIndex index).units ∧ UnitName.key uses.unit = key) ∧
    (∀ use, (ofIndex index).uses.count use = index.timesRecorded use) ∧
    (ofIndex index).roots.Nodup ∧
    (∀ key, key ∈ (ofIndex index).roots ↔ key ∈ index.rootKeys ∧ key ∈ index.namedKeys) ∧
    (ofIndex index).size =
      { units := index.namedKeys.card
        interfaceUses := (index.uses.values.map (·.interface.length)).sum
        implementationUses := (index.uses.values.map (·.implementation.length)).sum
        roots := (index.rootKeys ∩ index.namedKeys).card } ∧
    ∃ numbered, NumberedGraph.ofIndex index = some numbered ∧
      numbered.Shows (ofIndex index).units (ofIndex index).uses ∧
      (∀ number, number ∈ numbered.roots ↔
        ∃ root ∈ (ofIndex index).roots, numbered.key? number = some root) ∧
      numbered.size = (ofIndex index).size := by
  obtain ⟨hkeyed, -⟩ := h.keyed_and_rootsLoaded
  have hnodes : ∀ key, key ∈ (ofIndex index).keys ↔ key ∈ index.namedKeys := by
    intro key
    rw [← toFinset_keys hkeyed, List.mem_toFinset]
  obtain ⟨numbered, hnumbered, hshows⟩ := NumberedGraph.exists_ofIndex hkeyed
  refine ⟨nodup_keys index, hnodes, ?_, pairwise_units index, ?_, count_uses index,
    nodup_roots index, ?_, size_ofIndex hkeyed, numbered.addRoots index.roots, hnumbered, ?_, ?_,
    hshows.size_eq⟩
  · intro unit
    rw [contains, List.contains_iff_mem]
    exact hnodes _
  · intro key uses hfound
    have hentry : (key, uses) ∈ index.uses.toList :=
      Std.TreeMap.mem_toList_iff_getElem?_eq_some.2 hfound
    obtain ⟨more, hunits⟩ := exists_units_eq_append hkeyed
    refine ⟨?_, hkeyed key uses hentry⟩
    rw [hunits, NameTable.values_eq_map_toList, List.map_map]
    exact List.mem_append_left more (List.mem_map.2 ⟨_, hentry, rfl⟩)
  · intro key
    rw [← Finset.mem_inter, ← toFinset_roots hkeyed, List.mem_toFinset]
  · exact ⟨hshows.nodes_eq, hshows.numbers_iff, hshows.uses_eq⟩
  · exact fun number => hshows.mem_roots_iff

/-- A unit that is used and not loaded has a node, for instance. -/
theorem graph_represents_used_unit :
    let workspace : Workspace :=
      { tree := FileTree.empty.write ["m.pas"] [66], here := [], systemScratch := "/tmp"
        run := "1" }
    let registered : Index :=
      { unitPaths := (NameTable.empty.insert "m" "m.pas").insert "b" "b.pas" }
    let index := (registered.after workspace (.load "M")).after workspace (.build ["m.pas"])
    index.Reached ∧ (ofIndex index).contains "B" = true ∧
      (ofIndex index).size =
        { units := 2, interfaceUses := 1, implementationUses := 0, roots := 1 } := by
  intro workspace registered index
  have hreached : index.Reached :=
    (Index.reached_two_units.after workspace (.load "M")).after workspace (.build ["m.pas"])
  have hbuilt : index = _ :=
    Index.value_build_of_turns workspace (registered.after workspace (.load "M")) ["m.pas"] 1
      (by decide +kernel)
  have huses : index.uses.toList = [("m", { unit := "M", interface := ["B"] })] := by
    rw [hbuilt]
    decide +kernel
  have hroots : index.roots = ["m"] := by
    rw [hbuilt]
    decide +kernel
  have hkeys : index.namedKeys = ["m", "b"].toFinset := by
    rw [Index.namedKeys, NameTable.keys_eq_map_toList, NameTable.values_eq_map_toList, huses]
    decide +kernel
  obtain ⟨-, -, hcontains, -, -, -, -, -, hsize, -⟩ := graph_represents_index hreached
  refine ⟨hreached, (hcontains "B").2 ?_, ?_⟩
  · rw [hkeys]
    decide +kernel
  · rw [hsize, Index.rootKeys, hkeys, hroots, NameTable.values_eq_map_toList, huses]
    decide +kernel

end PascalUnits
