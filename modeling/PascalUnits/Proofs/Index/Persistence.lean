import PascalUnits.Proofs.Index.History

/-!
# What an index never takes back

Read `Extends` first: a later index knows what an earlier one knew of files and of loaded units, and
knows it unchanged. Every action gives an index that extends the one before (`extends_after`).
`Entry` says what the entry of a loaded unit looks like; loading makes such an entry
(`entry_usesOf`), and no action spoils it (`Entries.after`). The main statement is
`entries_hold_and_stay`.
-/

namespace PascalUnits

namespace Index

/-- The index after actions, each in surroundings of its own. -/
def afterAll (index : Index) (actions : List (Workspace × Action)) : Index :=
  actions.foldl (fun index action => index.after action.1 action.2) index

/-- A later index knows the files and the loaded units of an earlier one, and the same of them. -/
structure Extends (index later : Index) : Prop where
  unitPaths : ∀ name path, index.unitPaths.find? name = some path →
    later.unitPaths.find? name = some path
  includePaths : ∀ name path, index.includePaths.find? name = some path →
    later.includePaths.find? name = some path
  uses : ∀ key uses, (key, uses) ∈ index.uses.toList → (key, uses) ∈ later.uses.toList

/-- What an entry of the loaded units looks like. It stands under the key of the unit's own name,
and it lists registered units other than that one, in the order of their keys and without
repetition. -/
structure Entry (index : Index) (key : String) (uses : UnitUses) : Prop where
  key_eq : key = UnitName.key uses.unit
  interface_ordered :
    uses.interface.Pairwise fun first second => UnitName.key first < UnitName.key second
  implementation_ordered :
    uses.implementation.Pairwise fun first second => UnitName.key first < UnitName.key second
  registered : ∀ name ∈ uses.interface ++ uses.implementation, index.unitPaths.contains name
  other : ∀ name ∈ uses.interface ++ uses.implementation,
    UnitName.key name ≠ UnitName.key uses.unit

/-- All entries look like that. -/
def Entries (index : Index) : Prop :=
  ∀ key uses, (key, uses) ∈ index.uses.toList → index.Entry key uses

namespace Extends

/-- Every index extends itself. -/
theorem refl (index : Index) : index.Extends index :=
  ⟨fun _ _ h => h, fun _ _ h => h, fun _ _ h => h⟩

/-- What is known is known ever after. -/
theorem trans {index middle later : Index} (h : index.Extends middle)
    (hlater : middle.Extends later) : index.Extends later :=
  ⟨fun name path hpath => hlater.unitPaths name path (h.unitPaths name path hpath),
    fun name path hpath => hlater.includePaths name path (h.includePaths name path hpath),
    fun key uses huses => hlater.uses key uses (h.uses key uses huses)⟩

end Extends

variable {workspace : Workspace} {index later : Index} {unit name : String}

/-- Registering a file leaves alone the files that are registered. -/
theorem find?_register {table : NameTable String} {file : String} (path : String)
    (h : table.find? name = some file) : (register table path).value.find? name = some file := by
  rw [find?_register_eq, h, Option.some_or]

/-- So does registering many. -/
theorem find?_registerAll_of_some {table : NameTable String} {file : String} (paths : List String)
    (h : table.find? name = some file) : (registerAll table paths).find? name = some file := by
  rw [find?_registerAll, h, Option.some_or]

/-- Registering a unit extends an index. -/
theorem extends_addUnitPath (index : Index) (path : String) :
    index.Extends (index.addUnitPath path).value :=
  ⟨fun _ _ => find?_register path, fun _ _ h => h, fun _ _ h => h⟩

/-- Registering an include file extends an index. -/
theorem extends_addIncludePath (index : Index) (path : String) :
    index.Extends (index.addIncludePath path).value :=
  ⟨fun _ _ h => h, fun _ _ => find?_register path, fun _ _ h => h⟩

/-- So does registering many source files. -/
theorem extends_foldlM_addSourceFile (files : List String) (index : Index) :
    index.Extends (files.foldlM addSourceFile index).value := by
  rw [foldlM_addSourceFile_eq]
  exact ⟨fun _ _ => find?_registerAll_of_some _, fun _ _ => find?_registerAll_of_some _,
    fun _ _ h => h⟩

/-- So does registering a directory, whether or not it is there. -/
theorem extends_addDirectory (workspace : Workspace) (index : Index) (path : String) :
    index.Extends (index.after workspace (.addDirectory path)) := by
  simp only [after, addDirectory]
  cases workspace.directory? path with
  | none => exact .refl index
  | some directory => exact extends_foldlM_addSourceFile _ index

/-- An entry is the entry of a loaded unit. -/
theorem isLoaded_of_mem {uses : UnitUses} (h : (UnitName.key unit, uses) ∈ index.uses.toList) :
    index.isLoaded unit := by
  have hkey : UnitName.key unit ∈ index.uses.keys := by
    rw [NameTable.keys_eq_map_toList]
    exact List.mem_map_of_mem h
  exact NameTable.key_mem_keys.1 hkey

/-- Loading a unit extends an index: it adds an entry only where there is none. -/
theorem extends_load (workspace : Workspace) (index : Index) (unit : String) :
    index.Extends (index.load workspace unit).value.1 := by
  rw [load_index]
  split
  · exact .refl index
  · rename_i hunloaded
    refine ⟨fun _ _ h => h, fun _ _ h => h, fun key uses hmem => ?_⟩
    refine NameTable.mem_toList_insert.2 (.inr ⟨?_, hmem⟩)
    rintro rfl
    exact hunloaded (isLoaded_of_mem hmem)

/-- So does a build. -/
theorem extends_build (workspace : Workspace) (index : Index) (roots : List String) :
    index.Extends (index.build workspace roots).value := by
  rw [build_index]
  refine loadAll_rule (fun after _ => index.Extends after) ?_
    ⟨fun _ _ h => h, fun _ _ h => h, fun _ _ h => h⟩
  exact fun after unit _ hafter => hafter.trans (extends_load workspace after unit)

/-- Every action extends an index. -/
theorem extends_after (workspace : Workspace) (index : Index) (action : Action) :
    index.Extends (index.after workspace action) := by
  cases action with
  | addUnitPath path => exact extends_addUnitPath index path
  | addIncludePath path => exact extends_addIncludePath index path
  | addDirectory path => exact extends_addDirectory workspace index path
  | setInterfaceOnly interfaceOnly => exact ⟨fun _ _ h => h, fun _ _ h => h, fun _ _ h => h⟩
  | load unit => exact extends_load workspace index unit
  | build roots => exact extends_build workspace index roots

/-- So do any number of actions. -/
theorem extends_afterAll (index : Index) (actions : List (Workspace × Action)) :
    index.Extends (index.afterAll actions) := by
  induction actions generalizing index with
  | nil => exact .refl index
  | cons action rest ih => exact (extends_after action.1 index action.2).trans (ih _)

/-- Actions lead from an index that can be reached to one that can be reached. -/
theorem Reached.afterAll (h : index.Reached) (actions : List (Workspace × Action)) :
    (index.afterAll actions).Reached := by
  induction actions generalizing index with
  | nil => exact h
  | cons action rest ih => exact ih (h.after action.1 action.2)

/-- Both lists of a reading list names that count for the unit that was read. -/
theorem exists_lists_reading (index : Index) (unit : String) (findings : List Finding) :
    ∃ first second,
      UnitName.Lists (index.reading unit findings).uses.interface first ∧
      UnitName.Lists (index.reading unit findings).uses.implementation second ∧
      ∀ name ∈ first ++ second, index.counts unit name := by
  have hcounts : ∀ part, ∀ name ∈ Reading.namesIn part (index.counted unit findings),
      index.counts unit name := by
    intro part name hname
    obtain ⟨mention, hmention, rfl⟩ := List.mem_map.1 hname
    exact (List.mem_filter.1 (List.mem_filter.1 hmention).1).2
  obtain ⟨hinterface, hboth, honly⟩ := index.lists_counted unit findings
  cases hrecorded : index.interfaceOnly with
  | false =>
      refine ⟨_, _, hinterface, (hboth hrecorded).1, fun name hname => ?_⟩
      rcases List.mem_append.1 hname with hname | hname
      · exact hcounts _ name hname
      · exact hcounts _ name hname
  | true =>
      refine ⟨_, [], hinterface, ?_, fun name hname => ?_⟩
      · rw [(honly hrecorded).1]
        exact ⟨.nil, fun _ => Iff.rfl, nofun⟩
      · rw [List.append_nil] at hname
        exact hcounts _ name hname

/-- What loading a unit records is an entry. -/
theorem entry_usesOf (workspace : Workspace) (index : Index) (unit : String) :
    index.Entry (UnitName.key unit) (index.usesOf workspace unit) := by
  cases hpath : index.unitPaths.find? unit with
  | none =>
      simp only [usesOf, hpath]
      exact ⟨rfl, .nil, .nil, nofun, nofun⟩
  | some path =>
      have hunit := index.unit_usesOf workspace unit
      simp only [usesOf, hpath] at hunit ⊢
      generalize index.sourceFindings workspace unit path = findings at hunit ⊢
      obtain ⟨first, second, hfirst, hsecond, hcounts⟩ := index.exists_lists_reading unit findings
      have hlisted : ∀ name ∈ (index.reading unit findings).uses.interface ++
          (index.reading unit findings).uses.implementation,
          UnitName.key name ≠ UnitName.key unit ∧ index.unitPaths.contains name := by
        intro name hname
        have hmet : name ∈ first ++ second := List.mem_append.2
          ((List.mem_append.1 hname).imp (hfirst.mem_met name) (hsecond.mem_met name))
        simpa [counts] using hcounts name hmet
      refine ⟨by rw [hunit], hfirst.ordered, hsecond.ordered, ?_, ?_⟩
      · exact fun name hname => (hlisted name hname).2
      · intro name hname
        rw [hunit]
        exact (hlisted name hname).1

/-- An entry stays one in an index that extends its own. -/
theorem Entry.mono {key : String} {uses : UnitUses} (h : index.Entry key uses)
    (hextends : index.Extends later) : later.Entry key uses := by
  refine ⟨h.key_eq, h.interface_ordered, h.implementation_ordered, fun name hname => ?_, h.other⟩
  have hregistered := h.registered name hname
  rw [NameTable.contains_eq_isSome_find?, Option.isSome_iff_exists] at hregistered
  obtain ⟨path, hpath⟩ := hregistered
  exact NameTable.contains_of_find? (hextends.unitPaths name path hpath)

/-- Entries are left alone by what changes no loaded unit. -/
theorem Entries.of_uses_eq (h : index.Entries) (hextends : index.Extends later)
    (huses : later.uses = index.uses) : later.Entries :=
  fun key uses hmem => (h key uses (huses ▸ hmem)).mono hextends

/-- Loading a unit adds an entry to entries. -/
theorem Entries.load (h : index.Entries) (unit : String) :
    (index.load workspace unit).value.1.Entries := by
  have hextends := extends_load workspace index unit
  intro key uses hmem
  by_cases hbefore : (key, uses) ∈ index.uses.toList
  · exact (h key uses hbefore).mono hextends
  · rw [load_index] at hmem
    split at hmem
    · exact absurd hmem hbefore
    · rcases NameTable.mem_toList_insert.1 hmem with ⟨rfl, rfl⟩ | ⟨-, hold⟩
      · exact (entry_usesOf workspace index unit).mono hextends
      · exact absurd hold hbefore

/-- Every action leaves entries. -/
theorem Entries.after (h : index.Entries) (workspace : Workspace) (action : Action) :
    (index.after workspace action).Entries := by
  have hextends := extends_after workspace index action
  cases action with
  | addUnitPath path => exact h.of_uses_eq hextends rfl
  | addIncludePath path => exact h.of_uses_eq hextends rfl
  | addDirectory path => exact h.of_uses_eq hextends (uses_addDirectory workspace index path).1
  | setInterfaceOnly interfaceOnly => exact h.of_uses_eq hextends rfl
  | load unit => exact h.load unit
  | build roots =>
      have hroots : Entries { index with roots := index.roots ++ roots.map UnitName.ofPath } :=
        h.of_uses_eq ⟨fun _ _ h => h, fun _ _ h => h, fun _ _ h => h⟩ rfl
      exact loadAll_rule (fun index _ => index.Entries) (fun _ unit _ h => h.load unit) hroots

/-- So do any number of actions. -/
theorem Entries.afterAll (h : index.Entries) (actions : List (Workspace × Action)) :
    (index.afterAll actions).Entries := by
  induction actions generalizing index with
  | nil => exact h
  | cons action rest ih => exact ih (h.after action.1 action.2)

end Index

/-- Whatever is done with a fresh index, in surroundings that may change between any two actions,
every entry of a loaded unit stands under the key of its name and lists registered units other than
that one, in the order of their keys and without repetition. Further actions change no entry that is
there, and no file that is registered for a unit or as an include file. -/
theorem entries_hold_and_stay (settings : Settings) (actions more : List (Workspace × Action)) :
    let index := Index.afterAll { settings } actions
    (∀ key uses, (key, uses) ∈ index.uses.toList → index.Entry key uses) ∧
      index.Extends (index.afterAll more) := by
  have hfresh : Index.Entries { settings } := by
    intro key uses hmem
    simp [NameTable.toList, NameTable.empty] at hmem
  exact ⟨hfresh.afterAll actions, Index.extends_afterAll _ more⟩

end PascalUnits
