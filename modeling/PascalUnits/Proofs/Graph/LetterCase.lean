import PascalUnits.Proofs.Graph.Chains
import PascalUnits.Proofs.Graph.Projection
import PascalUnits.Proofs.Index.LetterCase

/-!
# Letter case in the graph of an index

The graph of an index depends on what the index knows by keys (`UsesGraph.ofIndex_alike`), and so do
its cycles and the chains to a unit, read by keys. So sources that differ in letter case lead to the
same graph. The main statement is `graph_ignores_letter_case`.
-/

namespace PascalUnits

namespace Text

/-- Which texts are distinct does not depend on letter case. -/
theorem map_lower_distinctFrom (seen : Std.TreeSet String) (texts : List String) :
    (distinctFrom seen texts).map lower = distinctFrom seen (texts.map lower) := by
  induction texts generalizing seen with
  | nil => rfl
  | cons text rest ih =>
      rw [distinctFrom, List.map_cons, distinctFrom, lower_lower]
      split
      · exact ih seen
      · rw [List.map_cons, ih]

end Text

/-- The uses of a unit by keys. -/
theorem UnitUses.edges_inKeys (uses : UnitUses) :
    uses.inKeys.edges = uses.edges.map fun use => (UnitName.key use.1, use.2) := by
  simp [edges, inKeys, Function.comp_def]

namespace Index

/-- What is known of the loaded units, by keys. -/
def entriesInKeys (index : Index) : List (String × UnitUses) :=
  index.uses.toList.map fun entry => (entry.1, entry.2.inKeys)

variable {index other : Index}

theorem Alike.entriesInKeys_eq (h : index.Alike other) :
    other.entriesInKeys = index.entriesInKeys :=
  map_toList_eq_of_map_getElem?_eq h.uses_eq

/-- The same units are listed as loaded. -/
theorem Alike.keys_eq (h : index.Alike other) : other.uses.keys = index.uses.keys := by
  have hkeys : ∀ index : Index, index.uses.keys = index.entriesInKeys.map (·.1) := by
    intro index
    rw [NameTable.keys_eq_map_toList, entriesInKeys, List.map_map]
    rfl
  rw [hkeys, hkeys, h.entriesInKeys_eq]

/-- The same is known of each unit, by keys. -/
theorem Alike.get?_eq (h : index.Alike other) (name : String) :
    (other.get? name).map UnitUses.inKeys = (index.get? name).map UnitUses.inKeys :=
  h.uses_eq (UnitName.key name)

end Index

namespace UsesGraph

variable {index other : Index}

theorem keys_ofIndex_eq (index : Index) :
    (ofIndex index).keys = Text.distinct (index.entriesInKeys.map (·.2.unit) ++
      index.entriesInKeys.flatMap fun entry => entry.2.edges.map (·.1)) := by
  have hkeys : (ofIndex index).keys = Text.distinct
      ((index.uses.values.map (·.unit) ++
        index.uses.values.flatMap fun uses => uses.edges.map (·.1)).map UnitName.key) :=
    Text.map_lower_distinctFrom _ _
  rw [hkeys, Index.entriesInKeys, NameTable.values_eq_map_toList]
  simp only [List.map_append, List.map_map, List.map_flatMap, List.flatMap_map,
    UnitUses.edges_inKeys]
  rfl

theorem uses_ofIndex_eq (index : Index) :
    (ofIndex index).uses = index.entriesInKeys.flatMap fun entry => entry.2.edges.map fun use =>
      { source := entry.1, target := use.1, part := use.2 } := by
  simp only [ofIndex, Index.entriesInKeys, List.flatMap_map, UnitUses.edges_inKeys, List.map_map]
  rfl

theorem roots_ofIndex_eq (index : Index) :
    (ofIndex index).roots = (Text.distinct (index.roots.map UnitName.key)).filter
      (Std.TreeSet.ofList (ofIndex index).keys).contains := by
  have hroots : (Text.distinct index.roots).map UnitName.key =
      Text.distinct (index.roots.map UnitName.key) := Text.map_lower_distinctFrom _ _
  rw [← hroots]
  rfl

/-- Indexes that are alike have graphs with the same keys, uses and roots. -/
theorem ofIndex_alike (h : index.Alike other) :
    (ofIndex other).keys = (ofIndex index).keys ∧ (ofIndex other).uses = (ofIndex index).uses ∧
      (ofIndex other).roots = (ofIndex index).roots := by
  have hkeys : (ofIndex other).keys = (ofIndex index).keys := by
    rw [keys_ofIndex_eq, keys_ofIndex_eq, h.entriesInKeys_eq]
  refine ⟨hkeys, ?_, ?_⟩
  · rw [uses_ofIndex_eq, uses_ofIndex_eq, h.entriesInKeys_eq]
  · rw [roots_ofIndex_eq, roots_ofIndex_eq, hkeys, h.roots_eq]

/-- They have the same cycles in the same order. -/
theorem byKeys_cycles_alike (h : index.Alike other) (hkeyed : index.Keyed)
    (hkeyedOther : other.Keyed) :
    byKeys (ofIndex other).cycles = byKeys (ofIndex index).cycles := by
  obtain ⟨hkeys, huses, -⟩ := ofIndex_alike h
  have hlinks : (ofIndex other).interfaceLinks = (ofIndex index).interfaceLinks := by
    rw [interfaceLinks, interfaceLinks, huses]
  rw [byKeys_cycles hkeyedOther, byKeys_cycles hkeyed, searchOrder, searchOrder, hlinks, hkeys]

/-- The same chains lead to a unit, in the same order. -/
theorem byKeys_why_alike (h : index.Alike other) {target otherTarget : String}
    (htarget : UnitName.key otherTarget = UnitName.key target) :
    byKeys ((ofIndex other).why otherTarget) = byKeys ((ofIndex index).why target) := by
  obtain ⟨hkeys, huses, hroots⟩ := ofIndex_alike h
  have husers : (ofIndex other).users = (ofIndex index).users := by rw [users, users, huses]
  rw [byKeys_why, byKeys_why, husers, hroots, hkeys, htarget]

end UsesGraph

open UsesGraph

/-- Letter case in sources never changes the graph. Let the same be done with two fresh indexes that
have the same settings: the same registrations, and loads and builds of names and roots that are the
same in lower case, in workspaces that have the same places and the same contents of files in lower
case. Then both list the same units as loaded, and know the same of each unit by keys. Read by keys,
their graphs have the same cycles and the same chains to a unit, in the same order. -/
theorem graph_ignores_letter_case (settings : Settings) {actions others : List (Workspace × Action)}
    (h : List.Forall₂ (fun action other => action.1.Alike other.1 ∧ action.2.Alike other.2)
      actions others) :
    let index := Index.afterAll { settings } actions
    let other := Index.afterAll { settings } others
    other.uses.keys = index.uses.keys ∧
    (∀ name, (other.get? name).map UnitUses.inKeys = (index.get? name).map UnitUses.inKeys) ∧
    byKeys (ofIndex other).cycles = byKeys (ofIndex index).cycles ∧
    ∀ target otherTarget, Text.lower otherTarget = Text.lower target →
      byKeys ((ofIndex other).why otherTarget) = byKeys ((ofIndex index).why target) := by
  intro index other
  have halike : index.Alike other := (Index.Alike.refl { settings }).afterAll h
  have hkeyed : index.Keyed :=
    ((Index.Reached.fresh settings).afterAll actions).keyed_and_rootsLoaded.1
  have hkeyedOther : other.Keyed :=
    ((Index.Reached.fresh settings).afterAll others).keyed_and_rootsLoaded.1
  exact ⟨halike.keys_eq, halike.get?_eq, byKeys_cycles_alike halike hkeyed hkeyedOther,
    fun _ _ => byKeys_why_alike halike⟩

/-- Two units that use each other, for instance, in sources of another letter case each. -/
theorem graph_of_upper_case :
    let workspace : Workspace :=
      { tree := (FileTree.empty.write ["m.pas"] (Bytes.ofText "uses b;")).write ["b.pas"]
          (Bytes.ofText "uses m;")
        here := [], systemScratch := "/tmp", run := "1" }
    let second : Workspace :=
      { tree := (FileTree.empty.write ["m.pas"] (Bytes.ofText "USES B;")).write ["b.pas"]
          (Bytes.ofText "USES M;")
        here := [], systemScratch := "/tmp", run := "2" }
    let index := Index.afterAll {} [(workspace, .addUnitPath "m.pas"),
      (workspace, .addUnitPath "b.pas"), (workspace, .build ["m"])]
    let other := Index.afterAll {} [(second, .addUnitPath "m.pas"),
      (second, .addUnitPath "b.pas"), (second, .build ["M"])]
    workspace.Alike second ∧
    (index.get? "m").map Index.lists = some (["b"], []) ∧
    (other.get? "m").map Index.lists = some (["B"], []) ∧
    other.uses.keys = index.uses.keys ∧
    (other.get? "m").map UnitUses.inKeys = (index.get? "m").map UnitUses.inKeys ∧
    byKeys (ofIndex other).cycles = byKeys (ofIndex index).cycles ∧
    byKeys ((ofIndex other).why "B") = byKeys ((ofIndex index).why "b") := by
  intro workspace second index other
  have hspace : workspace.Alike second := by
    refine ⟨rfl, fun place => ?_⟩
    have hmain : Bytes.lower (Bytes.ofText "USES B;") = Bytes.lower (Bytes.ofText "uses b;") := by
      decide +kernel
    have hused : Bytes.lower (Bytes.ofText "USES M;") = Bytes.lower (Bytes.ofText "uses m;") := by
      decide +kernel
    simp only [workspace, second, FileTree.write, Std.TreeMap.getElem?_insert]
    split
    · rw [Option.map_some, Option.map_some, Node.lower, Node.lower, hused]
    · split
      · rw [Option.map_some, Option.map_some, Node.lower, Node.lower, hmain]
      · rfl
  have hroots : ["M"].map Text.lower = ["m"].map Text.lower := by decide +kernel
  have hactions : List.Forall₂
      (fun action other : Workspace × Action => action.1.Alike other.1 ∧ action.2.Alike other.2)
      [(workspace, .addUnitPath "m.pas"), (workspace, .addUnitPath "b.pas"),
        (workspace, .build ["m"])]
      [(second, .addUnitPath "m.pas"), (second, .addUnitPath "b.pas"), (second, .build ["M"])] :=
    .cons ⟨hspace, .addUnitPath "m.pas"⟩ (.cons ⟨hspace, .addUnitPath "b.pas"⟩
      (.cons ⟨hspace, .build hroots⟩ .nil))
  obtain ⟨hkeys, hknown, hcycles, hwhy⟩ := graph_ignores_letter_case {} hactions
  -- both builds load the unit, and record its use as it is spelled
  have hloaded : ∀ (space : Workspace) (base : Index), base.uses = .empty → ∀ root,
      UnitName.key (UnitName.ofPath root) = "m" →
      ((base.build space [root]).value.get? "m").map Index.lists =
        some (Index.lists (base.usesOf space "m")) := by
    intro space base hfresh root hroot
    have hneeded : (base.build space [root]).value.isLoaded "m" := by
      rw [Index.isLoaded_build_iff space hfresh, show UnitName.key "m" = "m" by decide +kernel]
      exact hroot ▸ .root List.mem_cons_self
    rw [Index.get?_build_map_lists space hfresh, if_pos hneeded,
      show UnitName.key "m" = "m" by decide +kernel]
  have hfirst : (index.get? "m").map Index.lists = some (["b"], []) :=
    (hloaded workspace _ rfl "m" (by decide +kernel)).trans (by decide +kernel)
  have hsecond : (other.get? "m").map Index.lists = some (["B"], []) :=
    (hloaded second _ rfl "M" (by decide +kernel)).trans (by decide +kernel)
  exact ⟨hspace, hfirst, hsecond, hkeys, hknown "m", hcycles,
    hwhy "b" "B" (by decide +kernel)⟩

end PascalUnits
