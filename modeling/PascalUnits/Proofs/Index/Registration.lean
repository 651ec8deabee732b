import PascalUnits.Index.Basic
import PascalUnits.Proofs.NameTable

/-!
# What registering files does

Files are registered by the stems of their names, and the first file for a name stays. Read
`find?_registerAll` first: it says which file is found for a name when files have been registered
one after the other. `addDirectory_eq` says which files of a directory are registered as what.
-/

namespace PascalUnits.Index

/-- Whether a file is registered for a name, as its path tells. -/
def registersFor (name path : String) : Bool :=
  UnitName.key (UnitName.ofPath ((Path.fileName? path).getD "")) == UnitName.key name

/-- The table after the registration of files, one after the other. -/
def registerAll (table : NameTable String) (paths : List String) : NameTable String :=
  paths.foldl (fun table path => (register table path).value) table

/-- A registered file is found for its name, unless another one was found before. -/
theorem find?_register_eq (table : NameTable String) (path name : String) :
    (register table path).value.find? name =
      (table.find? name).or (if registersFor name path then some path else none) := by
  unfold register registersFor
  dsimp only
  simp only [beq_iff_eq]
  generalize UnitName.ofPath ((Path.fileName? path).getD "") = taken
  by_cases hsame : UnitName.key taken = UnitName.key name
  · rw [if_pos hsame, table.contains_congr hsame, table.contains_eq_isSome_find?]
    cases hfind : table.find? name with
    | some file => simpa using hfind
    | none => simp [NameTable.find?_insert, hsame]
  · rw [if_neg hsame, Option.or_none]
    split
    · rfl
    · rw [NameTable.find?_insert, if_neg hsame]

/-- Files are registered one after the other, so the first file for a name is found. -/
theorem find?_registerAll (table : NameTable String) (paths : List String) (name : String) :
    (registerAll table paths).find? name =
      (table.find? name).or (paths.find? (registersFor name)) := by
  induction paths generalizing table with
  | nil => exact Option.or_none.symm
  | cons path rest ih =>
      show (registerAll (register table path).value rest).find? name = _
      rw [ih, find?_register_eq, Option.or_assoc, List.find?_cons]
      cases registersFor name path <;> rfl

/-- Source files are registered as include files where they have the extension of one, and as units
where not. -/
theorem foldlM_addSourceFile_eq (files : List String) (index : Index) :
    (files.foldlM addSourceFile index).value =
      { index with
        unitPaths := registerAll index.unitPaths
          (files.filter fun file => !index.settings.isIncludeFile file)
        includePaths := registerAll index.includePaths
          (files.filter index.settings.isIncludeFile) } := by
  induction files generalizing index with
  | nil => rfl
  | cons file rest ih =>
      rw [List.foldlM_cons, Traced.value_bind, ih, addSourceFile]
      cases hinclude : index.settings.isIncludeFile file with
      | true => simp [addIncludePath, registerAll, hinclude]
      | false => simp [addUnitPath, registerAll, hinclude]

/-- Registering a directory registers its source files. -/
theorem addDirectory_eq {workspace : Workspace} {path : String} {directory : Location}
    (h : workspace.directory? path = some directory) (index : Index) :
    let files := sourceFiles workspace index.settings path directory
    (index.addDirectory workspace path).map Traced.value =
      .ok (files.foldlM addSourceFile index).value := by
  rw [addDirectory, h]
  rfl

end PascalUnits.Index
