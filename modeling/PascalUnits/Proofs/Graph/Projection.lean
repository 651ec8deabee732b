import PascalUnits.Proofs.Graph.Cycles
import PascalUnits.Proofs.Index.Closure

/-!
# Indexes that record interface parts only

An index that records interface parts only still follows the uses in implementation parts, so that
it loads the same units. `SameSources` says that two indexes have the same files before them: what
is mentioned there (`SameSources.mentions_eq`) and what is recorded of interface parts
(`SameSources.interface_usesOf`) is then the same. The main statement is
`build_projects_interfaces`.
-/

namespace PascalUnits

namespace Index

/-- Two indexes find the same in the sources of units. -/
structure SameSources (index other : Index) : Prop where
  unitPaths_eq : other.unitPaths = index.unitPaths
  includePaths_eq : other.includePaths = index.includePaths
  maxIncludeDepth_eq : other.settings.maxIncludeDepth = index.settings.maxIncludeDepth

variable {workspace : Workspace} {index other : Index} {unit : String}

/-- Units mention the same. -/
theorem SameSources.mentions_eq (h : index.SameSources other) :
    Mentions workspace other = Mentions workspace index := by
  funext key name
  rw [Mentions, Mentions, h.unitPaths_eq, h.includePaths_eq, h.maxIncludeDepth_eq]

/-- The same mentions count, wherever they are found. -/
theorem SameSources.counted_eq (h : index.SameSources other) (findings : List Finding) :
    other.counted unit findings = index.counted unit findings := by
  have hcounts : other.counts unit = index.counts unit := by
    funext name
    rw [counts, counts, h.unitPaths_eq]
  rw [counted, counted, hcounts]

/-- The same is found in the source of a unit. -/
theorem SameSources.sourceFindings_eq (h : index.SameSources other) (path : String) :
    other.sourceFindings workspace unit path = index.sourceFindings workspace unit path := by
  rw [sourceFindings, sourceFindings, h.includePaths_eq, h.maxIncludeDepth_eq]

/-- What is recorded of interface parts does not depend on what is recorded of the others. -/
theorem SameSources.interface_usesOf (h : index.SameSources other) :
    (other.usesOf workspace unit).interface = (index.usesOf workspace unit).interface := by
  unfold usesOf
  rw [h.unitPaths_eq]
  split
  · rfl
  · rename_i path _
    have hreading := congrArg Prod.fst
      (index.lists_reading unit (index.sourceFindings workspace unit path))
    have hother := congrArg Prod.fst
      (other.lists_reading unit (other.sourceFindings workspace unit path))
    rw [h.sourceFindings_eq, h.counted_eq] at hother
    rw [h.sourceFindings_eq]
    exact hother.trans hreading.symm

/-- Where interface parts alone are recorded nothing is known of the others. -/
theorem implementation_usesOf (h : index.interfaceOnly = true) :
    (index.usesOf workspace unit).implementation = [] := by
  unfold usesOf
  split
  · rfl
  · rename_i path _
    have hreading := congrArg (·.2.1)
      (index.lists_reading unit (index.sourceFindings workspace unit path))
    rw [h] at hreading
    exact hreading

section FirstBuild

variable (workspace) (hindex : index.uses = .empty) (roots : List String) (name : String)

include hindex

/-- The first build of an index loads what its roots need. -/
theorem isLoaded_build_iff :
    (index.build workspace roots).value.isLoaded name ↔
      Needed (Mentions workspace index) roots (UnitName.key name) := by
  have hfresh : Pending workspace [] index [] := .fresh hindex
  have hpending := hfresh.build roots
  rw [hpending.isLoaded_iff name]
  exact iff_of_eq (congrArg (Needed · roots _) (buildAll_frame workspace index [roots]).1)

/-- It records what loading each of them by its key would record. -/
theorem get?_build_map_lists :
    ((index.build workspace roots).value.get? name).map lists =
      if (index.build workspace roots).value.isLoaded name then
        some (lists (index.usesOf workspace (UnitName.key name)))
      else none := by
  have huses : usesOf workspace (index.build workspace roots).value = usesOf workspace index :=
    (buildAll_frame workspace index [roots]).2
  rw [((Pending.fresh hindex).build roots).get?_map_lists, huses]

/-- Where interface parts alone are recorded a build leaves the others unknown. -/
theorem implementation_build (honly : index.interfaceOnly = true) {uses : UnitUses}
    (huses : (index.build workspace roots).value.get? name = some uses) :
    uses.implementation = [] := by
  have hlists := get?_build_map_lists workspace hindex roots name
  rw [huses, Option.map_some] at hlists
  split at hlists
  · rw [← implementation_usesOf honly]
    exact congrArg Prod.snd (Option.some.inj hlists)
  · cases hlists

variable (h : index.SameSources other) (hother : other.uses = .empty)

include h hother

/-- Indexes with the same sources load the same units. -/
theorem SameSources.isLoaded_build :
    (other.build workspace roots).value.isLoaded name =
      (index.build workspace roots).value.isLoaded name := by
  rw [Bool.eq_iff_iff, isLoaded_build_iff workspace hother,
    isLoaded_build_iff workspace hindex, h.mentions_eq]

/-- They know the same of interface parts. -/
theorem SameSources.sameInterfaceUses_build :
    (index.build workspace roots).value.SameInterfaceUses (other.build workspace roots).value := by
  intro name
  have hlists := get?_build_map_lists workspace hindex roots name
  have hlistsOther := get?_build_map_lists workspace hother roots name
  rw [h.isLoaded_build workspace hindex roots name hother] at hlistsOther
  have hmap : ∀ uses : Option UnitUses,
      uses.map (·.interface) = (uses.map lists).map Prod.fst := fun uses => by cases uses <;> rfl
  rw [hmap, hmap, hlists, hlistsOther]
  split
  · exact congrArg some h.interface_usesOf
  · rfl

end FirstBuild

end Index

open UsesGraph

/-- Recording interface parts only leaves out what is recorded of the other parts, and nothing else.
Let two indexes have the same files registered and no units loaded yet, one that records both parts
and one that records interface parts only, whatever its settings say. After a build from the same
roots they have loaded the same units, and the same is known of all interface parts. The second one
knows nothing of implementation parts. Read by keys, both have the same cycles in the same order. -/
theorem build_projects_interfaces (workspace : Workspace) (settings : Settings) (given : Bool)
    (unitPaths includePaths : NameTable String) (roots : List String) :
    let full := (Index.build workspace
      { settings, interfaceOnly := false, unitPaths, includePaths } roots).value
    let projected := (Index.build workspace
      { settings := { settings with interfaceOnly := given }, interfaceOnly := true,
        unitPaths, includePaths } roots).value
    projected.uses.keys = full.uses.keys ∧
    (∀ name, (projected.get? name).map (·.interface) = (full.get? name).map (·.interface)) ∧
    (∀ name uses, projected.get? name = some uses → uses.implementation = []) ∧
    byKeys (ofIndex projected).cycles = byKeys (ofIndex full).cycles := by
  intro full projected
  have hsources : Index.SameSources
      { settings, interfaceOnly := false, unitPaths, includePaths }
      { settings := { settings with interfaceOnly := given }, interfaceOnly := true,
        unitPaths, includePaths } := ⟨rfl, rfl, rfl⟩
  have hkeyed : full.Keyed := (Index.Keyed.of_uses_empty rfl).build roots
  have hkeyedOther : projected.Keyed := (Index.Keyed.of_uses_empty rfl).build roots
  have hinterfaces : full.SameInterfaceUses projected :=
    hsources.sameInterfaceUses_build workspace rfl roots rfl
  refine ⟨?_, hinterfaces, ?_, byKeys_cycles_eq hkeyed hkeyedOther hinterfaces⟩
  · -- keys are listed in order, so it is enough that they are the same ones
    refine NameTable.keys_eq_of_mem_iff fun key => ?_
    rw [hkeyedOther.mem_keys_iff, hkeyed.mem_keys_iff]
    exact and_congr_right fun _ => by rw [hsources.isLoaded_build workspace rfl roots key rfl]
  · exact fun name uses => Index.implementation_build workspace rfl roots name rfl

end PascalUnits
