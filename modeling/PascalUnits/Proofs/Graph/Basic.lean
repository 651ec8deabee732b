import Mathlib.Data.List.Nodup
import PascalUnits.Graph.Basic
import PascalUnits.Proofs.Index.Load

/-!
# The graph of an index

What the graph of an index says in terms of the index, for an index that lists each unit under the
key of its own name. Its nodes are the loaded units and the units that they use (`mem_keys_iff`),
each one once (`nodup_keys`), its uses are those recorded (`exists_use_iff`), in the order of the
keys of the units that use (`pairwise_uses`), and its roots are the roots of the index that are
nodes (`mem_roots_iff`). Lists that show nodes by names are read back by keys (`byKeys_names`).
-/

namespace PascalUnits

namespace Index

/-- The loaded unit with the key `source` uses the one with the key `target` in its interface
part. -/
def UsesInInterface (index : Index) (source target : String) : Prop :=
  ∃ uses, index.get? source = some uses ∧ target ∈ uses.interface.map UnitName.key

/-- The loaded unit with the key `source` uses the one with the key `target` in either part. -/
def Uses (index : Index) (source target : String) : Prop :=
  ∃ uses, index.get? source = some uses ∧
    (target ∈ uses.interface.map UnitName.key ∨ target ∈ uses.implementation.map UnitName.key)

variable {index : Index}

/-- An entry of a keyed index is what is known of the unit with its key. -/
theorem Keyed.mem_toList_iff (h : index.Keyed) {key : String} {uses : UnitUses} :
    (key, uses) ∈ index.uses.toList ↔ UnitName.key key = key ∧ index.get? key = some uses := by
  constructor
  · intro hentry
    have hkey : UnitName.key key = key := by rw [← h key uses hentry, UnitName.key_key]
    exact ⟨hkey, (NameTable.mem_toList_iff_find? hkey).1 hentry⟩
  · intro hfound
    obtain ⟨hkey, hfind⟩ := hfound
    exact (NameTable.mem_toList_iff_find? hkey).2 hfind

end Index

/-- The uses of a unit are those of its interface part and those of its implementation part. -/
theorem UnitUses.mem_edges_iff {uses : UnitUses} {name : String} {part : UnitPart} :
    (name, part) ∈ uses.edges ↔
      part = .interface ∧ name ∈ uses.interface ∨
        part = .implementation ∧ name ∈ uses.implementation := by
  cases part <;> simp [UnitUses.edges]

/-- Texts that are distinct come first when more are listed behind them. -/
theorem Text.distinctFrom_append {seen : Std.TreeSet String} {texts : List String}
    (hnodup : (texts.map lower).Nodup) (hseen : ∀ text ∈ texts, lower text ∉ seen)
    (others : List String) :
    ∃ more, distinctFrom seen (texts ++ others) = texts ++ more := by
  induction texts generalizing seen with
  | nil => exact ⟨_, rfl⟩
  | cons text rest ih =>
      obtain ⟨hnotin, hrest⟩ := List.nodup_cons.1 hnodup
      obtain ⟨htext, hunseen⟩ := List.forall_mem_cons.1 hseen
      have hinsert : ∀ other ∈ rest, lower other ∉ seen.insert (lower text) := by
        intro other hother hmem
        rw [Std.TreeSet.mem_insert, Std.LawfulEqCmp.compare_eq_iff_eq] at hmem
        rcases hmem with hsame | hmem
        · exact hnotin (hsame ▸ List.mem_map_of_mem hother)
        · exact hunseen other hother hmem
      obtain ⟨more, hmore⟩ := ih hrest hinsert
      exact ⟨more, by rw [List.cons_append, distinctFrom, if_neg htext, hmore]; rfl⟩

namespace UsesGraph

variable {index : Index}

/-- A use of the graph is recorded for the unit that uses. -/
theorem mem_uses_iff {use : Use} :
    use ∈ (ofIndex index).uses ↔ ∃ uses, (use.source, uses) ∈ index.uses.toList ∧
      ∃ name, (name, use.part) ∈ uses.edges ∧ UnitName.key name = use.target := by
  simp only [ofIndex, List.mem_flatMap, List.mem_map]
  constructor
  · intro huse
    obtain ⟨⟨key, uses⟩, hentry, ⟨name, part⟩, hedge, rfl⟩ := huse
    exact ⟨uses, hentry, name, hedge, rfl⟩
  · intro hrecorded
    obtain ⟨uses, hentry, name, hedge, htarget⟩ := hrecorded
    refine ⟨(use.source, uses), hentry, (name, use.part), hedge, ?_⟩
    rw [htarget]

/-- Units use each other in the graph as they do in the index. -/
theorem exists_use_iff (h : index.Keyed) {source target : String} :
    (∃ use ∈ (ofIndex index).uses, use.source = source ∧ use.target = target) ↔
      UnitName.key source = source ∧ index.Uses source target := by
  constructor
  · intro hmeets
    obtain ⟨use, huse, rfl, rfl⟩ := hmeets
    obtain ⟨uses, hentry, name, hedge, htarget⟩ := mem_uses_iff.1 huse
    obtain ⟨hkey, hget⟩ := h.mem_toList_iff.1 hentry
    refine ⟨hkey, uses, hget, ?_⟩
    rcases UnitUses.mem_edges_iff.1 hedge with ⟨-, hname⟩ | ⟨-, hname⟩
    · exact .inl (List.mem_map.2 ⟨name, hname, htarget⟩)
    · exact .inr (List.mem_map.2 ⟨name, hname, htarget⟩)
  · rintro ⟨hkey, uses, hget, hinterface | himplementation⟩
    · obtain ⟨name, hname, rfl⟩ := List.mem_map.1 hinterface
      exact ⟨⟨⟨source, _⟩, .interface⟩, mem_uses_iff.2 ⟨uses, h.mem_toList_iff.2 ⟨hkey, hget⟩, name,
        UnitUses.mem_edges_iff.2 (.inl ⟨rfl, hname⟩), rfl⟩, rfl, rfl⟩
    · obtain ⟨name, hname, rfl⟩ := List.mem_map.1 himplementation
      exact ⟨⟨⟨source, _⟩, .implementation⟩, mem_uses_iff.2 ⟨uses, h.mem_toList_iff.2 ⟨hkey, hget⟩,
        name, UnitUses.mem_edges_iff.2 (.inr ⟨rfl, hname⟩), rfl⟩, rfl, rfl⟩

/-- Uses are in the order of the keys of the units that use. -/
theorem pairwise_uses (index : Index) :
    (ofIndex index).uses.Pairwise fun first second => first.source ≤ second.source := by
  refine List.pairwise_flatMap.2 ⟨?_, ?_⟩
  · intro entry _
    exact List.pairwise_map.2 (List.pairwise_of_forall fun _ _ => String.le_refl _)
  · refine index.uses.pairwise_toList.imp ?_
    intro first second hlt use huse other hother
    obtain ⟨_, _, rfl⟩ := List.mem_map.1 huse
    obtain ⟨_, _, rfl⟩ := List.mem_map.1 hother
    exact Std.le_of_lt hlt

/-- No two nodes of the graph have the same key. -/
theorem nodup_keys (index : Index) : (ofIndex index).keys.Nodup :=
  Text.nodup_map_lower_distinct _

/-- The nodes of the graph are the units with an entry and the targets of its uses. -/
theorem mem_keys_ofIndex {key : String} :
    key ∈ (ofIndex index).keys ↔
      (∃ entry ∈ index.uses.toList, UnitName.key entry.2.unit = key) ∨
        ∃ use ∈ (ofIndex index).uses, use.target = key := by
  refine Text.mem_map_lower_distinct.trans ?_
  rw [NameTable.values_eq_map_toList, List.map_append, List.mem_append]
  refine or_congr ?_ ?_
  · simp [UnitName.key]
  · constructor
    · intro hused
      obtain ⟨name, hname, rfl⟩ := List.mem_map.1 hused
      obtain ⟨uses, huses, hlisted⟩ := List.mem_flatMap.1 hname
      obtain ⟨entry, hentry, rfl⟩ := List.mem_map.1 huses
      obtain ⟨edge, hedge, rfl⟩ := List.mem_map.1 hlisted
      exact ⟨⟨⟨entry.1, UnitName.key edge.1⟩, edge.2⟩,
        mem_uses_iff.2 ⟨entry.2, hentry, edge.1, hedge, rfl⟩, rfl⟩
    · intro hused
      obtain ⟨use, huse, rfl⟩ := hused
      obtain ⟨uses, hentry, name, hedge, htarget⟩ := mem_uses_iff.1 huse
      refine List.mem_map.2 ⟨name, List.mem_flatMap.2 ⟨uses, ?_, ?_⟩, htarget⟩
      · exact List.mem_map.2 ⟨_, hentry, rfl⟩
      · exact List.mem_map.2 ⟨_, hedge, rfl⟩

/-- The nodes of the graph are the loaded units and the units that they use. -/
theorem mem_keys_iff (h : index.Keyed) {key : String} :
    key ∈ (ofIndex index).keys ↔
      key ∈ index.uses.keys ∨ ∃ source, UnitName.key source = source ∧ index.Uses source key := by
  rw [mem_keys_ofIndex]
  refine or_congr ?_ ?_
  · rw [NameTable.keys_eq_map_toList, List.mem_map]
    constructor
    · intro hloaded
      obtain ⟨entry, hentry, rfl⟩ := hloaded
      exact ⟨entry, hentry, (h _ _ hentry).symm⟩
    · intro hlisted
      obtain ⟨entry, hentry, rfl⟩ := hlisted
      exact ⟨entry, hentry, h _ _ hentry⟩
  · constructor
    · intro hused
      obtain ⟨use, huse, rfl⟩ := hused
      exact ⟨use.source, (exists_use_iff h).1 ⟨use, huse, rfl, rfl⟩⟩
    · intro hused
      obtain ⟨source, hsource⟩ := hused
      obtain ⟨use, huse, -, htarget⟩ := (exists_use_iff h).2 hsource
      exact ⟨use, huse, htarget⟩

/-- Keys of nodes are keys of names. -/
theorem key_of_mem_keys {graph : UsesGraph} {key : String} (h : key ∈ graph.keys) :
    UnitName.key key = key := by
  obtain ⟨unit, _, rfl⟩ := List.mem_map.1 h
  exact UnitName.key_key unit

/-- The roots of the graph are the roots of the index that are nodes. -/
theorem mem_roots_iff {key : String} :
    key ∈ (ofIndex index).roots ↔
      key ∈ (ofIndex index).keys ∧ ∃ root ∈ index.roots, UnitName.key root = key := by
  have hroots : (ofIndex index).roots = ((Text.distinct index.roots).map UnitName.key).filter
      (Std.TreeSet.ofList (ofIndex index).keys).contains := rfl
  have hdistinct : key ∈ (Text.distinct index.roots).map UnitName.key ↔
      key ∈ index.roots.map UnitName.key := Text.mem_map_lower_distinct
  rw [hroots, List.mem_filter, hdistinct, List.mem_map, Std.TreeSet.contains_ofList,
    List.contains_iff_mem, and_comm]

/-- No root of the graph is there twice. -/
theorem nodup_roots (index : Index) : (ofIndex index).roots.Nodup :=
  (Text.nodup_map_lower_distinct index.roots).filter _

/-- In a table of names the latest name with a key is found. -/
theorem find?_foldl_insert (units : List String) (names : NameTable String) (key : String) :
    (units.foldl (fun names unit => names.insert unit unit) names).find? key =
      (units.reverse.find? fun unit => UnitName.key unit == UnitName.key key).or
        (names.find? key) := by
  induction units generalizing names with
  | nil => rfl
  | cons unit rest ih =>
      rw [List.foldl_cons, ih, NameTable.find?_insert, List.reverse_cons, List.find?_append,
        Option.or_assoc]
      by_cases hkey : UnitName.key unit = UnitName.key key <;> simp [hkey]

/-- The name for a key is the last one among the units that has it, or else the key itself. -/
theorem nameIn_names (graph : UsesGraph) (key : String) :
    nameIn graph.names key =
      (graph.units.reverse.find? fun unit => UnitName.key unit == UnitName.key key).getD key := by
  rw [nameIn, names, find?_foldl_insert, NameTable.find?_empty, Option.or_none]

/-- The name for a key has that key. -/
theorem key_nameIn (graph : UsesGraph) (key : String) :
    UnitName.key (nameIn graph.names key) = UnitName.key key := by
  rw [nameIn_names]
  cases hfind : graph.units.reverse.find? fun unit => UnitName.key unit == UnitName.key key with
  | none => rfl
  | some unit =>
      have hkey := List.find?_some hfind
      exact beq_iff_eq.1 hkey

/-- The name for the key of a unit is the name of the unit. -/
theorem nameIn_of_mem {graph : UsesGraph} (hnodup : graph.keys.Nodup) {unit : String}
    (hunit : unit ∈ graph.units) : nameIn graph.names (UnitName.key unit) = unit := by
  rw [nameIn_names]
  cases hfind : graph.units.reverse.find? fun other =>
      UnitName.key other == UnitName.key (UnitName.key unit) with
  | none =>
      have hnone := List.find?_eq_none.1 hfind unit (List.mem_reverse.2 hunit)
      rw [UnitName.key_key] at hnone
      exact absurd (beq_self_eq_true _) hnone
  | some other =>
      have hkey := List.find?_some hfind
      have hother := List.mem_reverse.1 (List.mem_of_find?_eq_some hfind)
      rw [UnitName.key_key, beq_iff_eq] at hkey
      -- nodes have distinct keys, so the name that is found is that of `unit`
      exact List.inj_on_of_nodup_map hnodup hother hunit hkey

/-- The loaded units of a keyed index have the keys that are listed. -/
theorem map_key_units (h : index.Keyed) :
    (index.uses.values.map (·.unit)).map UnitName.key = index.uses.keys := by
  rw [NameTable.values_eq_map_toList, NameTable.keys_eq_map_toList, List.map_map, List.map_map]
  exact List.map_congr_left fun entry hentry => h _ _ hentry

/-- The loaded units come first among the units of the graph. -/
theorem exists_units_eq_append (h : index.Keyed) :
    ∃ more, (ofIndex index).units = index.uses.values.map (·.unit) ++ more := by
  have hunits : (ofIndex index).units = Text.distinctFrom ∅ (index.uses.values.map (·.unit) ++
      index.uses.values.flatMap fun uses => uses.edges.map (·.1)) := rfl
  have hnodup : ((index.uses.values.map (·.unit)).map UnitName.key).Nodup := by
    rw [map_key_units h]
    exact index.uses.nodup_keys
  rw [hunits]
  exact Text.distinctFrom_append hnodup (fun _ _ => Std.TreeSet.not_mem_emptyc) _

/-- So do their keys. -/
theorem exists_keys_eq_append (h : index.Keyed) :
    ∃ more, (ofIndex index).keys = index.uses.keys ++ more := by
  obtain ⟨more, hunits⟩ := exists_units_eq_append h
  exact ⟨more.map UnitName.key, by rw [keys, hunits, List.map_append, map_key_units h]⟩

/-- The name for the key of a loaded unit is the name under which it was loaded. -/
theorem nameIn_loaded (h : index.Keyed) {key : String} {uses : UnitUses}
    (hentry : (key, uses) ∈ index.uses.toList) :
    nameIn (ofIndex index).names key = uses.unit := by
  obtain ⟨more, hunits⟩ := exists_units_eq_append h
  have hunit : uses.unit ∈ (ofIndex index).units := by
    rw [hunits, NameTable.values_eq_map_toList, List.map_map]
    exact List.mem_append_left more (List.mem_map.2 ⟨_, hentry, rfl⟩)
  rw [← h key uses hentry]
  exact nameIn_of_mem (nodup_keys index) hunit

/-- Lists of names, read by the keys of the names. -/
def byKeys (lists : List (List String)) : List (List String) :=
  lists.map (·.map UnitName.key)

/-- Lists of nodes that are shown by names are read back by keys. -/
theorem byKeys_names {graph : UsesGraph} {lists : List (List String)}
    (h : ∀ list ∈ lists, ∀ key ∈ list, key ∈ graph.keys) :
    byKeys (lists.map (·.map (nameIn graph.names))) = lists := by
  rw [byKeys, List.map_map]
  refine (List.map_congr_left ?_).trans (List.map_id lists)
  intro list hlist
  simp only [Function.comp_apply, List.map_map]
  refine (List.map_congr_left ?_).trans (List.map_id list)
  intro key hkey
  simp only [Function.comp_apply, key_nameIn, key_of_mem_keys (h list hlist key hkey), id]

end UsesGraph

end PascalUnits
