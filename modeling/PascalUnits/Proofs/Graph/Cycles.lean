import Mathlib.Logic.Relation
import PascalUnits.Proofs.Graph.Basic
import PascalUnits.Proofs.Graph.Groups
import PascalUnits.Proofs.Index.History

/-!
# Cycles of interface uses of an index

The main statement is `cycles_are_components`: for whatever was done with an index, the cycles that
are listed are the groups of more than one unit whose units lead to each other through uses in
interface parts, and they do not depend on anything else that is recorded. `searchOrder_eq_append`
says why: what is not used in an interface part and uses nothing comes last in the search.
-/

namespace PascalUnits

open Relation

namespace Index

/-- From one unit to another one through uses in interface parts. -/
def LeadsTo (index : Index) : String → String → Prop :=
  ReflTransGen index.UsesInInterface

/-- Two indexes know the same units and the same uses in interface parts. -/
def SameInterfaces (index other : Index) : Prop :=
  ∀ name, (other.get? name).map (fun uses => (uses.unit, uses.interface)) =
    (index.get? name).map fun uses => (uses.unit, uses.interface)

/-- Two indexes know the same keys of units and the same uses in interface parts. -/
def SameInterfaceUses (index other : Index) : Prop :=
  ∀ name, (other.get? name).map (·.interface) = (index.get? name).map (·.interface)

variable {index other : Index}

/-- The names of the units may be left out. -/
theorem SameInterfaces.sameInterfaceUses (h : index.SameInterfaces other) :
    index.SameInterfaceUses other := by
  intro name
  have hinterface := congrArg (Option.map Prod.snd) (h name)
  rwa [Option.map_map, Option.map_map] at hinterface

/-- What other units lead to is the key of a name. -/
theorem LeadsTo.key_eq {source target : String} (h : index.LeadsTo source target)
    (hne : source ≠ target) : UnitName.key target = target := by
  rcases ReflTransGen.cases_tail h with hsame | ⟨_, _, _, _, huse⟩
  · exact absurd hsame.symm hne
  · obtain ⟨name, _, rfl⟩ := List.mem_map.1 huse
    exact UnitName.key_key name

/-- The entries of a keyed index are what is known of the listed keys. -/
theorem Keyed.map_toList (h : index.Keyed) :
    index.uses.toList.map (fun entry => (entry.1, some entry.2)) =
      index.uses.keys.map fun key => (key, index.get? key) := by
  rw [NameTable.keys_eq_map_toList, List.map_map]
  refine List.map_congr_left fun entry hentry => ?_
  rw [Function.comp_apply, (h.mem_toList_iff.1 hentry).2]

end Index

namespace UsesGraph

variable {index : Index}

/-- The links for what is known of the unit with the key `key`. -/
def linksOf (key : String) (uses : Option UnitUses) : List Link :=
  ((uses.map (·.interface)).getD []).map fun name =>
    { source := key, target := UnitName.key name }

/-- The interface uses of the graph are those of the listed units, in the order of their keys. -/
theorem interfaceLinks_ofIndex (h : index.Keyed) :
    (ofIndex index).interfaceLinks =
      index.uses.keys.flatMap fun key => linksOf key (index.get? key) := by
  have hentry : ∀ entry : String × UnitUses,
      ((entry.2.edges.map fun use =>
        ({ source := entry.1, target := UnitName.key use.1, part := use.2 } : Use)).filter
          (·.part == .interface)).map (·.toLink) = linksOf entry.1 (some entry.2) := by
    intro entry
    simp [linksOf, UnitUses.edges, List.filter_map, Function.comp_def]
  calc (ofIndex index).interfaceLinks
      = index.uses.toList.flatMap fun entry => linksOf entry.1 (some entry.2) := by
        simp only [interfaceLinks, ofIndex, List.filter_flatMap, List.map_flatMap, hentry]
    _ = (index.uses.toList.map fun entry => (entry.1, some entry.2)).flatMap
          fun known => linksOf known.1 known.2 := by rw [List.flatMap_map]
    _ = _ := by rw [h.map_toList, List.flatMap_map]

/-- There is a link for each interface use of a listed unit. -/
theorem mem_interfaceLinks_iff (h : index.Keyed) {source target : String} :
    { source, target } ∈ (ofIndex index).interfaceLinks ↔
      UnitName.key source = source ∧ index.UsesInInterface source target := by
  rw [interfaceLinks_ofIndex h, List.mem_flatMap]
  constructor
  · intro hmem
    obtain ⟨key, hkey, hlink⟩ := hmem
    obtain ⟨name, hname, hsame⟩ := List.mem_map.1 hlink
    obtain ⟨rfl, rfl⟩ := Link.mk.inj hsame
    cases huses : index.get? key with
    | none =>
        rw [huses] at hname
        cases hname
    | some uses =>
        rw [huses] at hname
        exact ⟨(h.mem_keys_iff.1 hkey).1, uses, huses, List.mem_map.2 ⟨name, hname, rfl⟩⟩
  · intro huse
    obtain ⟨hsource, uses, huses, htarget⟩ := huse
    obtain ⟨name, hname, rfl⟩ := List.mem_map.1 htarget
    refine ⟨source, h.mem_keys_iff.2 ⟨hsource, ?_⟩, ?_⟩
    · rw [Index.isLoaded, NameTable.contains_eq_isSome_find?]
      exact Option.isSome_iff_exists.2 ⟨uses, huses⟩
    · rw [huses]
      exact List.mem_map.2 ⟨name, hname, rfl⟩

/-- Interface uses are between nodes of the graph, and from listed units. -/
theorem mem_keys_of_link (h : index.Keyed) :
    ∀ link ∈ (ofIndex index).interfaceLinks,
      link.source ∈ index.uses.keys ∧ link.target ∈ (ofIndex index).keys := by
  intro link hlink
  obtain ⟨hsource, uses, huses, htarget⟩ := (mem_interfaceLinks_iff h).1 hlink
  have hentry := h.mem_toList_iff.2 ⟨hsource, huses⟩
  refine ⟨?_, (mem_keys_iff h).2 (.inr ⟨link.source, hsource, uses, huses, .inl htarget⟩)⟩
  rw [NameTable.keys_eq_map_toList]
  exact List.mem_map.2 ⟨_, hentry, rfl⟩

/-- From a listed unit the links of the graph lead where interface uses lead. -/
theorem reaches_iff (h : index.Keyed) {source target : String}
    (hsource : UnitName.key source = source) :
    Reaches (ofIndex index).interfaceLinks source target ↔ index.LeadsTo source target := by
  constructor
  · refine ReflTransGen.mono ?_ source target
    exact fun _ _ hlink => ((mem_interfaceLinks_iff h).1 hlink).2
  · intro hleads
    induction hleads using ReflTransGen.head_induction_on with
    | refl => exact .refl
    | head huse _ ih =>
        obtain ⟨uses, huses, htarget⟩ := huse
        obtain ⟨name, _, hname⟩ := List.mem_map.1 htarget
        refine (ih ?_).head ((mem_interfaceLinks_iff h).2 ⟨hsource, uses, huses, htarget⟩)
        rw [← hname, UnitName.key_key]

/-- The search of a graph is one from all nodes. -/
theorem exists_search_nodes (graph : UsesGraph) :
    ∃ rest, Search (.ofLinks graph.interfaceLinks) (.ofList graph.keys) graph.keys
      graph.searchOrder rest := by
  obtain ⟨order, rest, hsearch⟩ :=
    search_exists (.ofLinks graph.interfaceLinks) (.ofList graph.keys) graph.keys
  have horder : graph.searchOrder = order := by
    have hfinish := hsearch.finishOrder_eq []
    rwa [finishOrder, List.append_nil, List.append_nil] at hfinish
  exact ⟨rest, horder ▸ hsearch⟩

/-- The search of the graph of a keyed index finishes with its nodes in such an order that their
groups can be read off. -/
theorem finishedIn_searchOrder (h : index.Keyed) :
    FinishedIn (ofIndex index).interfaceLinks (ofIndex index).searchOrder := by
  obtain ⟨rest, hsearch⟩ := exists_search_nodes (ofIndex index)
  refine finishedIn_of_search (fun link hlink => ?_) hsearch
  obtain ⟨hsource, htarget⟩ := mem_keys_of_link h link hlink
  exact ⟨(mem_keys_iff h).2 (.inl hsource), htarget⟩

theorem mem_searchOrder {graph : UsesGraph} {key : String} :
    key ∈ graph.searchOrder ↔ key ∈ graph.keys := by
  obtain ⟨rest, hsearch⟩ := exists_search_nodes graph
  exact mem_order_ofList hsearch

/-- Read by keys, the cycles of an index are the groups of more than one unit. -/
theorem byKeys_cycles (h : index.Keyed) :
    byKeys (ofIndex index).cycles =
      (groupsIn (ofIndex index).interfaceLinks (ofIndex index).searchOrder).filter
        (1 < ·.length) := by
  rw [← groups_eq (finishedIn_searchOrder h)]
  refine byKeys_names fun group hgroup key hkey => ?_
  have hmem := (List.mem_filter.1 hgroup).1
  rw [groups_eq (finishedIn_searchOrder h)] at hmem
  exact mem_searchOrder.1 (mem_order_of_mem_group hmem hkey)

/-- Two units are in one cycle if each of them leads to the other. -/
theorem exists_cycle_iff (h : index.Keyed) {unit other : String} (hne : unit ≠ other) :
    (∃ group ∈ (groupsIn (ofIndex index).interfaceLinks (ofIndex index).searchOrder).filter
      (1 < ·.length), unit ∈ group ∧ other ∈ group) ↔
      index.LeadsTo unit other ∧ index.LeadsTo other unit := by
  have hfinished := finishedIn_searchOrder h
  constructor
  · intro htogether
    obtain ⟨group, hgroup, hunit, hother⟩ := htogether
    have hmem := (List.mem_filter.1 hgroup).1
    have hunitOrder := mem_order_of_mem_group hmem hunit
    have hotherOrder := mem_order_of_mem_group hmem hother
    obtain ⟨hforth, hback⟩ :=
      (exists_group_iff hunitOrder hotherOrder).1 ⟨group, hmem, hunit, hother⟩
    have hunitKey := key_of_mem_keys (mem_searchOrder.1 hunitOrder)
    have hotherKey := key_of_mem_keys (mem_searchOrder.1 hotherOrder)
    exact ⟨(reaches_iff h hunitKey).1 hforth, (reaches_iff h hotherKey).1 hback⟩
  · intro hleads
    obtain ⟨hforth, hback⟩ := hleads
    have hcycle : InCycle (ofIndex index).interfaceLinks unit other :=
      ⟨(reaches_iff h (hback.key_eq hne.symm)).2 hforth,
        (reaches_iff h (hforth.key_eq hne)).2 hback⟩
    have hother : other ∈ (ofIndex index).searchOrder := by
      rcases ReflTransGen.cases_head hcycle.2 with hsame | ⟨next, hlink, -⟩
      · exact absurd hsame.symm hne
      · exact (hfinished.mem_of_link _ hlink).1
    have hunit := hfinished.mem_of_inCycle hother hcycle
    obtain ⟨group, hgroup, hunitGroup, hotherGroup⟩ := (exists_group_iff hunit hother).2 hcycle
    refine ⟨group, List.mem_filter.2 ⟨hgroup, decide_eq_true ?_⟩, hunitGroup, hotherGroup⟩
    exact one_lt_length_of_mem hunitGroup hotherGroup hne

/-- The search from the listed units comes first. The nodes with which it does not finish are in no
cycle with other ones. -/
theorem searchOrder_eq_append (h : index.Keyed) :
    ∃ order alone rest, (ofIndex index).searchOrder = order ++ alone ∧
      Search (.ofLinks (ofIndex index).interfaceLinks) (.ofList (ofIndex index).keys)
        index.uses.keys order rest ∧
      ∀ key ∈ alone, ∀ other, InCycle (ofIndex index).interfaceLinks key other → other = key := by
  obtain ⟨more, hkeys⟩ := exists_keys_eq_append h
  obtain ⟨order, between, horder⟩ := search_exists (.ofLinks (ofIndex index).interfaceLinks)
    (.ofList (ofIndex index).keys) index.uses.keys
  obtain ⟨alone, rest, halone⟩ :=
    search_exists (.ofLinks (ofIndex index).interfaceLinks) between more
  refine ⟨order, alone, between, ?_, horder, ?_⟩
  · have hmore := halone.finishOrder_eq []
    rw [finishOrder, List.append_nil, List.append_nil] at hmore
    have hall := horder.finishOrder_eq (more.map .enter)
    rwa [hmore, ← List.map_append, ← hkeys] at hall
  · intro key hkey other hcycle
    rcases ReflTransGen.cases_head hcycle.1 with hsame | ⟨next, hlink, -⟩
    · exact hsame.symm
    · -- a key with a link is listed, so that the search from the listed keys finishes with it
      obtain ⟨hsource, -⟩ := mem_keys_of_link h _ hlink
      have hunseen : key ∈ Std.TreeSet.ofList (ofIndex index).keys := by
        simpa using (mem_keys_iff h).2 (.inl hsource)
      have hdone := horder.mem_order_of_mem key hsource hunseen
      exact absurd (halone.mem_unseen key hkey) (horder.not_mem_rest key hdone)

section Interfaces

variable {other : Index} (h : index.Keyed) (hother : other.Keyed)

section SameUses

variable (hsame : index.SameInterfaceUses other)

include h hother hsame

/-- Indexes that know the same of interface parts list the same units. -/
theorem keys_eq_of_sameInterfaceUses : other.uses.keys = index.uses.keys := by
  refine NameTable.keys_eq_of_mem_iff fun key => ?_
  have hloaded : other.isLoaded key = index.isLoaded key := by
    simp only [Index.isLoaded, NameTable.contains_eq_isSome_find?]
    exact (Option.isSome_map ..).symm.trans ((congrArg _ (hsame key)).trans (Option.isSome_map ..))
  rw [hother.mem_keys_iff, h.mem_keys_iff, hloaded]

/-- Their graphs have the same interface uses. -/
theorem interfaceLinks_eq_of_sameInterfaceUses :
    (ofIndex other).interfaceLinks = (ofIndex index).interfaceLinks := by
  rw [interfaceLinks_ofIndex hother, interfaceLinks_ofIndex h,
    keys_eq_of_sameInterfaceUses h hother hsame]
  have hlinks : ∀ key, linksOf key (other.get? key) = linksOf key (index.get? key) := by
    intro key
    exact congrArg (fun names : Option (List String) => (names.getD []).map fun name =>
      ({ source := key, target := UnitName.key name } : Link)) (hsame key)
  simp only [hlinks]

/-- The search from the listed units finishes with the same keys in both graphs, as both have nodes
for what is listed and for what an interface part uses. -/
theorem search_of_sameInterfaceUses {order : List String} {rest : Std.TreeSet String}
    (hsearch : Search (.ofLinks (ofIndex index).interfaceLinks) (.ofList (ofIndex index).keys)
      index.uses.keys order rest) :
    ∃ otherRest, Search (.ofLinks (ofIndex index).interfaceLinks) (.ofList (ofIndex other).keys)
      index.uses.keys order otherRest := by
  have hlinks := interfaceLinks_eq_of_sameInterfaceUses h hother hsame
  have hkeys := keys_eq_of_sameInterfaceUses h hother hsame
  refine hsearch.congr (fun key => key ∈ (ofIndex index).keys ∧ key ∈ (ofIndex other).keys)
    ?_ ?_ ?_
  · intro key target htarget
    have hlink := Adjacency.mem_targets_ofLinks.1 htarget
    exact ⟨(mem_keys_of_link h _ hlink).2, (mem_keys_of_link hother _ (hlinks ▸ hlink)).2⟩
  · intro key hkey
    have hkeyOther : key ∈ other.uses.keys := hkeys ▸ hkey
    exact ⟨(mem_keys_iff h).2 (.inl hkey), (mem_keys_iff hother).2 (.inl hkeyOther)⟩
  · intro key hnodes
    obtain ⟨hkey, hkeyOther⟩ := hnodes
    simp [hkey, hkeyOther]

/-- They have the same groups of more than one unit. -/
theorem filter_groupsIn_of_sameInterfaceUses :
    (groupsIn (ofIndex other).interfaceLinks (ofIndex other).searchOrder).filter (1 < ·.length) =
      (groupsIn (ofIndex index).interfaceLinks (ofIndex index).searchOrder).filter
        (1 < ·.length) := by
  obtain ⟨order, alone, rest, horder, hsearch, halone⟩ := searchOrder_eq_append h
  obtain ⟨otherOrder, otherAlone, otherRest, hotherOrder, hotherSearch, hotherAlone⟩ :=
    searchOrder_eq_append hother
  have hlinks := interfaceLinks_eq_of_sameInterfaceUses h hother hsame
  rw [keys_eq_of_sameInterfaceUses h hother hsame, hlinks] at hotherSearch
  obtain ⟨againRest, hagain⟩ := search_of_sameInterfaceUses h hother hsame hsearch
  have hfinished := (finishedIn_searchOrder h).nodup
  have hotherFinished := (finishedIn_searchOrder hother).nodup
  rw [horder] at hfinished
  rw [hotherOrder] at hotherFinished
  rw [hlinks] at hotherAlone
  rw [hlinks, hotherOrder, filter_groupsIn_append hotherFinished hotherAlone, horder,
    filter_groupsIn_append hfinished halone, hagain.order_unique hotherSearch]

/-- Read by keys, they list the same cycles. -/
theorem byKeys_cycles_eq : byKeys (ofIndex other).cycles = byKeys (ofIndex index).cycles := by
  rw [byKeys_cycles hother, byKeys_cycles h, filter_groupsIn_of_sameInterfaceUses h hother hsame]

end SameUses

include h hother

/-- Indexes that also know the same names of units list the same cycles. -/
theorem cycles_eq_of_sameInterfaces (hsame : index.SameInterfaces other) :
    (ofIndex other).cycles = (ofIndex index).cycles := by
  rw [cycles, cycles, groups_eq (finishedIn_searchOrder hother),
    groups_eq (finishedIn_searchOrder h),
    filter_groupsIn_of_sameInterfaceUses h hother hsame.sameInterfaceUses]
  refine List.map_congr_left fun group hgroup => List.map_congr_left fun key hkey => ?_
  obtain ⟨hmem, hbig⟩ := List.mem_filter.1 hgroup
  obtain ⟨next, hlink⟩ := exists_link_of_mem_group (finishedIn_searchOrder h).nodup hmem
    (of_decide_eq_true hbig) hkey
  obtain ⟨hkeyEq, uses, huses, _⟩ := (mem_interfaceLinks_iff h).1 hlink
  have hknown := hsame key
  rw [huses, Option.map_some] at hknown
  obtain ⟨otherUses, hotherUses, hunit⟩ := Option.map_eq_some_iff.1 hknown
  rw [nameIn_loaded h (h.mem_toList_iff.2 ⟨hkeyEq, huses⟩),
    nameIn_loaded hother (hother.mem_toList_iff.2 ⟨hkeyEq, hotherUses⟩)]
  exact congrArg Prod.fst hunit

end Interfaces

end UsesGraph

open UsesGraph

/-- The cycles of interface uses, whatever was done with the index before. Read by keys, two units
are in one cycle if each leads to the other through interface parts. There are at least two units in
each cycle and no unit is there twice, and no cycle leads to one that is listed after it. An index
that differs in its implementation parts only has the same cycles. -/
theorem cycles_are_components {index : Index} (h : index.Reached) :
    (∀ unit other, unit ≠ other →
      ((∃ group ∈ byKeys (ofIndex index).cycles, unit ∈ group ∧ other ∈ group) ↔
        index.LeadsTo unit other ∧ index.LeadsTo other unit)) ∧
    (∀ group ∈ byKeys (ofIndex index).cycles, 2 ≤ group.length) ∧
    (byKeys (ofIndex index).cycles).flatten.Nodup ∧
    (byKeys (ofIndex index).cycles).Pairwise (fun earlier later =>
      ∀ unit ∈ earlier, ∀ other ∈ later, ¬index.LeadsTo unit other) ∧
    ∀ other : Index, other.Reached → index.SameInterfaces other →
      (ofIndex other).cycles = (ofIndex index).cycles := by
  obtain ⟨hkeyed, -⟩ := h.keyed_and_rootsLoaded
  have hfinished := finishedIn_searchOrder hkeyed
  rw [byKeys_cycles hkeyed]
  refine ⟨?_, ?_, ?_, ?_, ?_⟩
  · exact fun unit other => exists_cycle_iff hkeyed
  · intro group hgroup
    exact of_decide_eq_true (List.mem_filter.1 hgroup).2
  · obtain ⟨heach, hdisjoint⟩ := List.nodup_flatten.1 (nodup_flatten_groupsIn hfinished.nodup)
    refine List.nodup_flatten.2 ⟨?_, hdisjoint.filter _⟩
    exact fun group hgroup => heach group (List.mem_filter.1 hgroup).1
  · refine ((pairwise_groupsIn hfinished).filter _).imp_of_mem ?_
    intro earlier later hearlier _ hleads unit hunit other hother hreaches
    have hmem := mem_order_of_mem_group (List.mem_filter.1 hearlier).1 hunit
    have hkey := key_of_mem_keys (mem_searchOrder.1 hmem)
    exact hleads unit hunit other hother ((reaches_iff hkeyed hkey).2 hreaches)
  · intro other hother hsame
    exact cycles_eq_of_sameInterfaces hkeyed hother.keyed_and_rootsLoaded.1 hsame

/-- Two units that use each other are in one cycle. -/
theorem cycles_of_two_units :
    let workspace : Workspace :=
      { tree := (FileTree.empty.write ["m.pas"] [66]).write ["b.pas"] [77], here := []
        systemScratch := "/tmp", run := "1" }
    let registered : Index :=
      { unitPaths := (NameTable.empty.insert "m" "m.pas").insert "b" "b.pas" }
    let index := registered.after workspace (.build ["m.pas"])
    index.Reached ∧ ∃ group ∈ byKeys (ofIndex index).cycles, "m" ∈ group ∧ "b" ∈ group := by
  intro workspace registered index
  have hreached : index.Reached := .after workspace (.build ["m.pas"]) Index.reached_two_units
  have huses : index.uses.toList =
      [("b", { unit := "B", interface := ["M"] }), ("m", { unit := "m", interface := ["B"] })] := by
    have hbuilt : index = _ :=
      Index.value_build_of_turns workspace registered ["m.pas"] 2 (by decide +kernel)
    rw [hbuilt]
    decide +kernel
  have hknown : ∀ entry ∈ index.uses.toList, index.get? entry.1 = some entry.2 :=
    fun entry hentry => (hreached.keyed_and_rootsLoaded.1.mem_toList_iff.1 hentry).2
  rw [huses, List.forall_mem_cons, List.forall_mem_singleton] at hknown
  have hforth : index.UsesInInterface "m" "b" := ⟨_, hknown.2, by decide +kernel⟩
  have hback : index.UsesInInterface "b" "m" := ⟨_, hknown.1, by decide +kernel⟩
  have hcycle := ((cycles_are_components hreached).1 "m" "b" (by decide)).2
  exact ⟨hreached, hcycle ⟨.single hforth, .single hback⟩⟩

end PascalUnits
