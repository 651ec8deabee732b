import Mathlib.Data.List.Nodup
import PascalUnits.Proofs.Graph.Components

/-!
# Groups of units

`groups_eq` says what the groups of a graph are: one for each leader, with the keys that it leads.
Two keys are in one group if they are in a cycle (`exists_group_iff`), no key is in two groups
(`nodup_flatten_groupsIn`), and no group leads to a later one (`pairwise_groupsIn`). Keys that are
in no cycle with another one can be left out behind the rest (`filter_groupsIn_append`).
-/

namespace PascalUnits

open Relation UsesGraph

variable {links : List Link} {order : List String} {key other leader : String}

/-- Keys in a cycle have the same keys in a cycle with them. -/
theorem firstInCycle_congr (keys : List String) (h : InCycle links key other) :
    firstInCycle links keys key = firstInCycle links keys other := by
  have hsame : ∀ third, InCycle links key third ↔ InCycle links other third := fun third =>
    ⟨h.symm.trans, h.trans⟩
  unfold firstInCycle
  congr 1
  funext third
  exact decide_eq_decide.2 (hsame third)

/-- The first key in a cycle with a key is one of those given. -/
theorem mem_of_firstInCycle {keys : List String} (h : firstInCycle links keys key = some leader) :
    leader ∈ keys ∧ InCycle links key leader := by
  refine ⟨List.mem_of_find?_eq_some h, ?_⟩
  simpa using List.find?_some h

/-- The keys of the order whose last key in a cycle with them is `leader`. -/
noncomputable def groupOf (links : List Link) (order : List String) (leader : String) :
    List String :=
  order.filter fun key => firstInCycle links order.reverse key == some leader

/-- The groups of the keys of an order, each in the place of its last key. -/
noncomputable def groupsIn (links : List Link) (order : List String) : List (List String) :=
  (order.map (groupOf links order)).filter fun group => !group.isEmpty

theorem mem_groupOf :
    key ∈ groupOf links order leader ↔
      key ∈ order ∧ firstInCycle links order.reverse key = some leader := by
  rw [groupOf, List.mem_filter, beq_iff_eq]

/-- The keys of a group are in a cycle with its leader. -/
theorem inCycle_of_mem_groupOf (h : key ∈ groupOf links order leader) :
    InCycle links key leader :=
  (mem_of_firstInCycle (mem_groupOf.1 h).2).2

theorem mem_groupsIn {group : List String} :
    group ∈ groupsIn links order ↔
      ∃ leader ∈ order, groupOf links order leader = group ∧ group ≠ [] := by
  rw [groupsIn, List.mem_filter, List.mem_map]
  simp only [Bool.not_eq_true', List.isEmpty_eq_false_iff]
  constructor
  · intro hmem
    obtain ⟨⟨leader, hleader, hgroup⟩, hne⟩ := hmem
    exact ⟨leader, hleader, hgroup, hne⟩
  · intro hmem
    obtain ⟨leader, hleader, hgroup, hne⟩ := hmem
    exact ⟨⟨leader, hleader, hgroup⟩, hne⟩

/-- Groups have keys of the order. -/
theorem mem_order_of_mem_group {group : List String} (hgroup : group ∈ groupsIn links order)
    (hkey : key ∈ group) : key ∈ order := by
  obtain ⟨leader, _, rfl, _⟩ := mem_groupsIn.1 hgroup
  exact (mem_groupOf.1 hkey).1

/-- Two keys of the order are in one group if they are in a cycle. -/
theorem exists_group_iff (hkey : key ∈ order) (hother : other ∈ order) :
    (∃ group ∈ groupsIn links order, key ∈ group ∧ other ∈ group) ↔ InCycle links key other := by
  constructor
  · intro htogether
    obtain ⟨_, hgroup, hkeyGroup, hotherGroup⟩ := htogether
    obtain ⟨leader, _, rfl, _⟩ := mem_groupsIn.1 hgroup
    exact (inCycle_of_mem_groupOf hkeyGroup).trans (inCycle_of_mem_groupOf hotherGroup).symm
  · intro hcycle
    obtain ⟨leader, hleader⟩ := exists_firstInCycle (List.mem_reverse.2 hkey)
    have hkeyGroup : key ∈ groupOf links order leader := mem_groupOf.2 ⟨hkey, hleader⟩
    have hotherGroup : other ∈ groupOf links order leader :=
      mem_groupOf.2 ⟨hother, (firstInCycle_congr _ hcycle).symm.trans hleader⟩
    refine ⟨groupOf links order leader, mem_groupsIn.2 ⟨leader, ?_, rfl, ?_⟩, hkeyGroup,
      hotherGroup⟩
    · exact List.mem_reverse.1 (mem_of_firstInCycle hleader).1
    · exact List.ne_nil_of_mem hkeyGroup

/-- No key is in a group twice or in two groups. -/
theorem nodup_flatten_groupsIn (h : order.Nodup) : (groupsIn links order).flatten.Nodup := by
  refine List.nodup_flatten.2 ⟨?_, ?_⟩
  · intro group hgroup
    obtain ⟨leader, _, rfl, _⟩ := mem_groupsIn.1 hgroup
    exact h.filter _
  · refine List.Pairwise.filter _ (List.pairwise_map.2 (h.imp ?_))
    intro leader leaderToo hne key hkey hkeyToo
    have hleader := (mem_groupOf.1 hkey).2
    rw [(mem_groupOf.1 hkeyToo).2] at hleader
    exact hne (Option.some.inj hleader).symm

/-- No group leads to a later one. -/
theorem pairwise_groupsIn (h : FinishedIn links order) :
    (groupsIn links order).Pairwise fun earlier later =>
      ∀ key ∈ earlier, ∀ other ∈ later, ¬Reaches links key other := by
  refine List.Pairwise.filter _ (List.pairwise_map.2 (List.pairwise_iff_forall_sublist.2 ?_))
  intro leader leaderToo hsublist key hkey other hother hreaches
  obtain ⟨early, late, rfl, hleader, hrest⟩ := List.cons_sublist_iff.1 hsublist
  have hleaderToo : leaderToo ∈ late := hrest.subset (List.mem_singleton_self leaderToo)
  have hkeyCycle := inCycle_of_mem_groupOf hkey
  have hreachesToo : Reaches links leader leaderToo :=
    (hkeyCycle.2.trans hreaches).trans (inCycle_of_mem_groupOf hother).1
  obtain ⟨third, hthird, hcycle⟩ :=
    h.cycles_late early late rfl leader hleader leaderToo hleaderToo hreachesToo
  -- so `leader` is not the last key in a cycle with itself
  have hlast := (firstInCycle_congr _ hkeyCycle).symm.trans (mem_groupOf.1 hkey).2
  rw [List.reverse_append, firstInCycle_append] at hlast
  cases hlate : firstInCycle links late.reverse leader with
  | none =>
      exact firstInCycle_eq_none_iff.1 hlate third (List.mem_reverse.2 hthird) hcycle
  | some last =>
      rw [hlate, Option.some_or] at hlast
      obtain rfl := Option.some.inj hlast
      have hmem := List.mem_reverse.1 (mem_of_firstInCycle hlate).1
      exact (List.nodup_append.1 h.nodup).2.2 last hleader last hmem rfl

/-- A group with two keys has more than one. -/
theorem one_lt_length_of_mem {group : List String} (hkey : key ∈ group) (hother : other ∈ group)
    (hne : key ≠ other) : 1 < group.length := by
  refine Nat.lt_of_not_le fun hsmall => hne ?_
  match group, hkey, hother, hsmall with
  | [only], hkey, hother, _ => rw [List.mem_singleton.1 hkey, List.mem_singleton.1 hother]

/-- A key in a group with another one leads somewhere. -/
theorem exists_link_of_mem_group (h : order.Nodup) {group : List String}
    (hgroup : group ∈ groupsIn links order) (hbig : 1 < group.length) (hkey : key ∈ group) :
    ∃ next, { source := key, target := next } ∈ links := by
  obtain ⟨leader, _, rfl, _⟩ := mem_groupsIn.1 hgroup
  obtain ⟨other, hother, hne⟩ : ∃ other ∈ groupOf links order leader, other ≠ key := by
    refine Classical.byContradiction fun hnone => ?_
    have hsubset : groupOf links order leader ⊆ [key] := fun other hother =>
      List.mem_singleton.2 (Classical.byContradiction fun hne => hnone ⟨other, hother, hne⟩)
    exact Nat.not_lt.2 (List.Nodup.length_le_of_subset (h.filter _) hsubset) hbig
  have hreaches : Reaches links key other :=
    (inCycle_of_mem_groupOf hkey).1.trans (inCycle_of_mem_groupOf hother).2
  rcases ReflTransGen.cases_head hreaches with hsame | ⟨next, hlink, _⟩
  · exact absurd hsame.symm hne
  · exact ⟨next, hlink⟩

section Alone

variable {alone : List String} (hnodup : (order ++ alone).Nodup)
  (halone : ∀ key ∈ alone, ∀ other, InCycle links key other → other = key)

include hnodup halone

/-- Keys behind the rest that are in no cycle with other keys change none of their groups. -/
theorem groupOf_append (hleader : leader ∈ order) :
    groupOf links (order ++ alone) leader = groupOf links order leader := by
  have hdisjoint : ∀ key ∈ order, key ∉ alone := fun key hkey hmem =>
    (List.nodup_append.1 hnodup).2.2 key hkey key hmem rfl
  have hfirst : ∀ key ∈ order,
      firstInCycle links (order ++ alone).reverse key = firstInCycle links order.reverse key := by
    intro key hkey
    have hnone : firstInCycle links alone.reverse key = none := by
      refine firstInCycle_eq_none_iff.2 fun other hother hcycle => ?_
      have hmem := List.mem_reverse.1 hother
      rw [← halone other hmem key hcycle.symm] at hmem
      exact hdisjoint key hkey hmem
    rw [List.reverse_append, firstInCycle_append, hnone, Option.none_or]
  -- a key alone would have to be the leader, which is not among them
  have hnone : alone.filter (fun key =>
      firstInCycle links (order ++ alone).reverse key == some leader) = [] := by
    refine List.filter_eq_nil_iff.2 fun key hkey hsome => ?_
    have hcycle := (mem_of_firstInCycle (beq_iff_eq.1 hsome)).2
    rw [← halone key hkey leader hcycle] at hkey
    exact hdisjoint leader hleader hkey
  rw [groupOf, List.filter_append, hnone, List.append_nil, groupOf]
  exact List.filter_congr fun key hkey => by rw [hfirst key hkey]

/-- Their own groups have no other keys. -/
theorem length_groupOf_append_le (hleader : leader ∈ alone) :
    (groupOf links (order ++ alone) leader).length ≤ 1 := by
  have hsubset : groupOf links (order ++ alone) leader ⊆ [leader] := fun key hkey =>
    List.mem_singleton.2 (halone leader hleader key (inCycle_of_mem_groupOf hkey).symm)
  exact List.Nodup.length_le_of_subset (hnodup.filter _) hsubset

/-- So they do not count for the groups of more than one key. -/
theorem filter_groupsIn_append :
    (groupsIn links (order ++ alone)).filter (1 < ·.length) =
      (groupsIn links order).filter (1 < ·.length) := by
  have hnone : ((alone.map (groupOf links (order ++ alone))).filter
      fun group => !group.isEmpty).filter (1 < ·.length) = [] := by
    refine List.filter_eq_nil_iff.2 fun group hmem hbig => ?_
    obtain ⟨leader, hleader, rfl⟩ := List.mem_map.1 (List.mem_filter.1 hmem).1
    have hsmall := length_groupOf_append_le hnodup halone hleader
    exact Nat.not_lt.2 hsmall (of_decide_eq_true hbig)
  have hgroups : order.map (groupOf links (order ++ alone)) = order.map (groupOf links order) :=
    List.map_congr_left fun leader hleader => groupOf_append hnodup halone hleader
  rw [groupsIn, List.map_append, List.filter_append, List.filter_append, hnone, List.append_nil,
    hgroups, groupsIn]

end Alone

/-- The groups of a graph are those of the keys in the order of the search. -/
theorem groups_eq {graph : UsesGraph} (h : FinishedIn graph.interfaceLinks graph.searchOrder) :
    graph.groups = groupsIn graph.interfaceLinks graph.searchOrder := by
  rw [groups, groupsIn]
  refine congrArg _ (List.map_congr_left fun leader _ => ?_)
  rw [Adjacency.targets_ofLinks, List.filter_map, List.map_map, ← List.map_reverse,
    List.filter_reverse, List.reverse_reverse, groupOf]
  refine (List.map_id _).trans (List.filter_congr fun key hkey => ?_)
  obtain ⟨last, hlast⟩ : ∃ last,
      firstInCycle graph.interfaceLinks graph.searchOrder.reverse key = some last :=
    exists_firstInCycle (List.mem_reverse.2 hkey)
  simp [Std.TreeMap.getD_eq_getD_getElem?, leaders_eq h, hlast]

end PascalUnits
