import PascalUnits.Proofs.Index.Load
import PascalUnits.Proofs.Index.Registration

/-!
# What can happen to an index

An index begins without units and changes by `Action`s: registrations, changes of what is recorded,
loads and builds, in any order, and the surroundings may change between any two of them. `Reached`
says that an index comes about this way. Two facts hold throughout: each loaded unit is listed under
the key of its own name, and all roots are loaded.
-/

namespace PascalUnits

/-- What can be done with an index. -/
inductive Action where
  | addUnitPath (path : String)
  | addIncludePath (path : String)
  | addDirectory (path : String)
  | setInterfaceOnly (interfaceOnly : Bool)
  | load (unit : String)
  | build (roots : List String)

namespace Index

/-- The index after an action. A directory that is not there adds nothing. -/
def after (workspace : Workspace) (index : Index) : Action → Index
  | .addUnitPath path => (index.addUnitPath path).value
  | .addIncludePath path => (index.addIncludePath path).value
  | .addDirectory path =>
    match index.addDirectory workspace path with
    | .ok registered => registered.value
    | .error _ => index
  | .setInterfaceOnly interfaceOnly => { index with interfaceOnly }
  | .load unit => (index.load workspace unit).value.1
  | .build roots => (index.build workspace roots).value

/-- An index that comes about by actions, each in surroundings of its own. -/
inductive Reached : Index → Prop where
  | fresh (settings : Settings) : Reached { settings }
  | after {index : Index} (workspace : Workspace) (action : Action) :
      Reached index → Reached (index.after workspace action)

/-- Two units are registered, for instance. -/
theorem after_two_units (workspace : Workspace) :
    (after workspace (after workspace {} (.addUnitPath "m.pas")) (.addUnitPath "b.pas")) =
      { unitPaths := (NameTable.empty.insert "m" "m.pas").insert "b" "b.pas" } := by
  have hmain : UnitName.ofPath "m.pas" = "m" := by decide +kernel
  have hother : UnitName.ofPath "b.pas" = "b" := by decide +kernel
  have hmainFile : Path.fileName? "m.pas" = some "m.pas" := by decide +kernel
  have hotherFile : Path.fileName? "b.pas" = some "b.pas" := by decide +kernel
  have hkeys : UnitName.key "m" ≠ UnitName.key "b" := by decide +kernel
  simp [after, addUnitPath, register, hmain, hother, hmainFile, hotherFile,
    NameTable.contains_insert, hkeys]

/-- So an index that knows them can be reached. -/
theorem reached_two_units :
    Reached { unitPaths := (NameTable.empty.insert "m" "m.pas").insert "b" "b.pas" } := by
  let workspace : Workspace := { tree := .empty, here := [], systemScratch := "/tmp", run := "1" }
  rw [← after_two_units workspace]
  exact ((Reached.fresh {}).after workspace (.addUnitPath "m.pas")).after workspace
    (.addUnitPath "b.pas")

/-- All roots are loaded. -/
def RootsLoaded (index : Index) : Prop :=
  ∀ root ∈ index.roots, index.isLoaded root

variable {workspace : Workspace} {index : Index}

/-- Registering a directory changes which files are known, and nothing else, whether or not it is
there. -/
theorem exists_addDirectory_eq (workspace : Workspace) (index : Index) (path : String) :
    ∃ unitPaths includePaths, index.after workspace (.addDirectory path) =
      { index with unitPaths, includePaths } := by
  simp only [after, addDirectory]
  cases workspace.directory? path with
  | none => exact ⟨index.unitPaths, index.includePaths, rfl⟩
  | some directory => exact ⟨_, _, foldlM_addSourceFile_eq _ index⟩

/-- So it changes neither the loaded units nor the roots. -/
theorem uses_addDirectory (workspace : Workspace) (index : Index) (path : String) :
    (index.after workspace (.addDirectory path)).uses = index.uses ∧
      (index.after workspace (.addDirectory path)).roots = index.roots := by
  obtain ⟨_, _, hindex⟩ := exists_addDirectory_eq workspace index path
  rw [hindex]
  exact ⟨rfl, rfl⟩

/-- Loading a unit keeps the roots loaded. -/
theorem RootsLoaded.load (h : index.RootsLoaded) (unit : String) :
    (index.load workspace unit).value.1.RootsLoaded := by
  have hroots : (index.load workspace unit).value.1.roots = index.roots := by
    rw [load_index]
    split <;> rfl
  intro root hroot
  rw [hroots] at hroot
  rw [isLoaded_load, h root hroot, Bool.or_true]

/-- Building notes the roots behind those of builds before. -/
theorem roots_build (workspace : Workspace) (index : Index) (roots : List String) :
    (index.build workspace roots).value.roots = index.roots ++ roots.map UnitName.ofPath := by
  rw [build_index, loadAll_index]

/-- Building keeps the roots loaded, the new ones among them. -/
theorem RootsLoaded.build (h : index.RootsLoaded) (roots : List String) :
    (index.build workspace roots).value.RootsLoaded := by
  intro root hroot
  rw [roots_build] at hroot
  rw [build_index]
  rcases List.mem_append.1 hroot with hbefore | hnew
  · refine isLoaded_loadAll ?_
    exact h root hbefore
  · exact isLoaded_loadAll_stack _ _ _ root (List.mem_reverse.2 hnew)

/-- Actions keep units under the keys of their names, and all roots loaded. -/
theorem Reached.keyed_and_rootsLoaded (h : index.Reached) : index.Keyed ∧ index.RootsLoaded := by
  induction h with
  | fresh settings => exact ⟨.of_uses_empty rfl, nofun⟩
  | @after index workspace action _ ih =>
      obtain ⟨hkeyed, hroots⟩ := ih
      -- registrations leave alone what both facts speak of
      have hframe : ∀ other : Index, other.uses = index.uses ∧ other.roots = index.roots →
          other.Keyed ∧ other.RootsLoaded := by
        intro other hother
        unfold Keyed RootsLoaded isLoaded
        rw [hother.1, hother.2]
        exact ⟨hkeyed, hroots⟩
      cases action with
      | addUnitPath path => exact hframe _ ⟨rfl, rfl⟩
      | addIncludePath path => exact hframe _ ⟨rfl, rfl⟩
      | addDirectory path => exact hframe _ (uses_addDirectory workspace index path)
      | setInterfaceOnly interfaceOnly => exact ⟨hkeyed, hroots⟩
      | load unit => exact ⟨hkeyed.load unit, hroots.load unit⟩
      | build roots => exact ⟨hkeyed.build roots, hroots.build roots⟩

end Index

end PascalUnits
