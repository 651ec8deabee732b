import Mathlib.Data.List.Infix
import PascalUnits.Proofs.Index.Registration
import PascalUnits.Proofs.Writing
import PascalUnits.SourceTree

/-!
# Counting the files that an index takes

An index takes the unit and include files below a directory, and a walk counts them
(`SourceTree.count`). `sourceFiles_eq` says which of the files that a walk meets are taken. The main
statement, `count_eq_registered_iff`, says when the counts are the numbers of these files.
-/

namespace PascalUnits

namespace FileTree

/-- No file stands in the place of the root directory, and the names on the way to a file are names
of entries. -/
def WellFormed (tree : FileTree) : Prop :=
  ∀ entry ∈ tree.files, entry.1 ≠ [] ∧ ∀ name ∈ entry.1, Path.IsEntryName name

instance (tree : FileTree) : Decidable tree.WellFormed :=
  inferInstanceAs (Decidable (∀ entry ∈ tree.files, _))

variable {tree : FileTree} {location directory names : Location} {contents : Bytes}

/-- A file is found where it is listed. -/
theorem node?_of_mem_files (h : (location, contents) ∈ tree.files) (hne : location ≠ []) :
    tree.node? location = some (.file contents) := by
  obtain ⟨⟨place, node⟩, hnode, hfile⟩ := List.mem_filterMap.1 h
  cases node with
  | directory => cases hfile
  | file text =>
      obtain ⟨rfl, rfl⟩ := Prod.mk.inj (Option.some.inj hfile)
      rw [node?, if_neg (by simpa using hne)]
      exact Std.TreeMap.mem_toList_iff_getElem?_eq_some.1 hnode

/-- The way from a directory to a file below it ends with the name of the file. -/
theorem WellFormed.exists_name (h : tree.WellFormed)
    (hdirectory : tree.node? directory = some .directory)
    (hnames : names ∈ tree.filesBelow directory) :
    ∃ earlier name, names = earlier ++ [name] ∧ Path.IsEntryName name := by
  obtain ⟨⟨location, contents⟩, hfile, hway⟩ := List.mem_filterMap.1 hnames
  have hlocation : directory ++ names = location := List.isPrefixOf?_eq_some_iff_append_eq.1 hway
  obtain ⟨hne, hentries⟩ := h _ hfile
  rcases List.eq_nil_or_concat names with rfl | ⟨earlier, name, rfl⟩
  · -- the directory would be a file
    rw [List.append_nil] at hlocation
    rw [hlocation, node?_of_mem_files hfile hne] at hdirectory
    cases hdirectory
  · refine ⟨earlier, name, List.concat_eq_append, hentries name ?_⟩
    rw [← hlocation]
    simp

end FileTree

/-- A directory that a path leads to is a directory of the tree. -/
theorem Workspace.node?_of_directory? {workspace : Workspace} {path : String} {place : Location}
    (h : workspace.directory? path = some place) :
    workspace.resolve path = .ok (place, .directory) ∧
      workspace.tree.node? place = some .directory := by
  rw [directory?] at h
  split at h
  · rename_i other hresolve
    cases h
    exact ⟨hresolve, (resolve_eq_ok_iff.1 hresolve).2⟩
  · cases h

namespace SourceTree

/-- The files that a walk meets whose root is the directory at `place`, by the names on the way to
them. -/
def met (workspace : Workspace) (root : String) (place : Location) : List Location :=
  if Path.isStandardInput root then []
  else (workspace.tree.filesBelow place).filter fun names => !names.any isHidden

variable {workspace : Workspace} {root : String} {place : Location}

theorem files_eq (h : workspace.directory? root = some place) :
    files workspace root =
      (met workspace root place).map fun names => names.foldl Path.join root := by
  rw [files, met, (Workspace.node?_of_directory? h).1]
  split <;> rfl

/-- An index sets hidden entries aside. -/
theorem isSetAside_of_isHidden {name : String} (h : isHidden name) : Index.isSetAside name := by
  rw [isHidden] at h
  rw [Index.isSetAside, h, Bool.true_or, Bool.true_or]

/-- The source files that an index takes are among the files that a walk meets. -/
theorem sourceFiles_eq (workspace : Workspace) (settings : Settings) (root : String)
    (place : Location) :
    Index.sourceFiles workspace settings root place =
      (((met workspace root place).filter fun names => !names.any Index.isSetAside).map fun names =>
        Location.path (place ++ names)).filter fun file =>
          settings.isIncludeFile file || settings.isUnitFile file := by
  have hhidden : (fun names : Location => !names.any Index.isSetAside && !names.any isHidden) =
      fun names => !names.any Index.isSetAside := by
    funext names
    cases haside : names.any Index.isSetAside with
    | true => rfl
    | false =>
        have hseen : names.any isHidden = false := by
          rw [List.any_eq_false] at haside ⊢
          exact fun name hname hhidden => haside name hname (isSetAside_of_isHidden hhidden)
        rw [hseen]
        rfl
  rw [Index.sourceFiles, met]
  split
  · rfl
  · rw [Index.candidates, List.filter_filter, hhidden]

/-- All that are counted are kept if as many are. -/
theorem countP_filter_eq_iff {α : Type} (l : List α) (p keep : α → Bool) :
    (l.filter keep).countP p = l.countP p ↔ ∀ x ∈ l, p x → keep x := by
  rw [l.countP_eq_countP_filter_add p keep, Nat.left_eq_add, List.countP_eq_zero]
  constructor
  · intro h x hx hp
    by_contra hkeep
    exact h x (List.mem_filter.2 ⟨hx, by simpa using hkeep⟩) hp
  · intro h x hx hp
    obtain ⟨hx, hkeep⟩ := List.mem_filter.1 hx
    rw [h x hx hp] at hkeep
    cases hkeep

/-- Each element is counted once, whichever kind is tried first, and all that are counted are kept,
exactly when the counts are the same. -/
theorem countP_kinds_eq_iff {α : Type} (l : List α) (keep isUnit isInclude : α → Bool) :
    (l.countP isUnit = (l.filter keep).countP (fun x => !isInclude x && isUnit x) ∧
      l.countP (fun x => !isUnit x && isInclude x) = (l.filter keep).countP isInclude) ↔
    ∀ x ∈ l, isUnit x ∨ isInclude x → keep x ∧ ¬(isUnit x ∧ isInclude x) := by
  have hunits : l.countP isUnit = (l.filter keep).countP (fun x => !isInclude x && isUnit x) ↔
      ∀ x ∈ l, isUnit x → keep x && !isInclude x := by
    rw [← countP_filter_eq_iff, eq_comm, List.countP_filter, List.countP_filter]
    simp only [Bool.and_comm, Bool.and_left_comm]
  have hincludes (h : ∀ x ∈ l, isUnit x → keep x && !isInclude x) :
      l.countP (fun x => !isUnit x && isInclude x) = (l.filter keep).countP isInclude ↔
        ∀ x ∈ l, isInclude x → keep x := by
    rw [← countP_filter_eq_iff, eq_comm]
    refine Eq.congr_right (List.countP_congr fun x hx => ?_)
    cases hunit : isUnit x with
    | false => simp
    | true =>
        have hkind := h x hx hunit
        rw [Bool.and_eq_true, Bool.not_eq_true'] at hkind
        simp [hkind.2]
  rw [hunits, and_congr_right hincludes, ← forall₂_and]
  refine forall₂_congr fun x _ => ?_
  cases isUnit x <;> cases isInclude x <;> simp

/-- The two ways to write the path of a file that is met end with the same name. -/
theorem fileName?_of_mem_met (htree : workspace.tree.WellFormed)
    (hroot : workspace.directory? root = some place) {names : Location}
    (hnames : names ∈ met workspace root place) :
    Path.fileName? (names.foldl Path.join root) =
      Path.fileName? (Location.path (place ++ names)) := by
  have hbelow : names ∈ workspace.tree.filesBelow place := by
    rw [met] at hnames
    split at hnames
    · cases hnames
    · exact (List.mem_filter.1 hnames).1
  obtain ⟨earlier, name, rfl, hname⟩ :=
    htree.exists_name (Workspace.node?_of_directory? hroot).2 hbelow
  rw [Path.fileName?_foldl_join _ _ hname, ← List.append_assoc, Path.fileName?_path _ hname]

/-- What depends on the name of a file is counted alike among the source files that an index takes
and among the files that a walk meets. -/
theorem countP_sourceFiles (settings : Settings) (htree : workspace.tree.WellFormed)
    (hroot : workspace.directory? root = some place) {p : String → Bool}
    (hp : ∀ file other, Path.fileName? file = Path.fileName? other → p file = p other) :
    (Index.sourceFiles workspace settings root place).countP p =
      ((met workspace root place).filter fun names => !names.any Index.isSetAside).countP
        fun names =>
          let file := names.foldl Path.join root
          p file && (settings.isIncludeFile file || settings.isUnitFile file) := by
  rw [sourceFiles_eq, List.countP_filter, List.countP_map]
  refine List.countP_congr fun names hnames => ?_
  have hname := fileName?_of_mem_met htree hroot (List.mem_filter.1 hnames).1
  simp only [Function.comp, hp _ _ hname, Settings.isIncludeFile, Settings.isUnitFile,
    Path.hasExtension_congr hname]

end SourceTree

open SourceTree in
/-- Counting the files that an index would take. A path to a directory lets an index register its
source files, as include files where they have the extension of one, and as units where not. The
numbers of these are what a walk counts exactly when every unit or include file that the walk meets
is of one kind only, and no name on the way to it is one that the index sets aside. -/
theorem count_eq_registered_iff (workspace : Workspace) (index : Index) {path : String}
    {directory : Location} (htree : workspace.tree.WellFormed)
    (hpath : workspace.directory? path = some directory) :
    let files := Index.sourceFiles workspace index.settings path directory
    let units := files.filter fun file => !index.settings.isIncludeFile file
    let includes := files.filter index.settings.isIncludeFile
    (index.addDirectory workspace path).map Traced.value = .ok { index with
      unitPaths := Index.registerAll index.unitPaths units
      includePaths := Index.registerAll index.includePaths includes } ∧
    (count workspace index.settings path =
        { units := units.length, includes := includes.length } ↔
      ∀ names ∈ met workspace path directory,
        let file := names.foldl Path.join path
        index.settings.isUnitFile file ∨ index.settings.isIncludeFile file →
          ¬names.any Index.isSetAside ∧
            ¬(index.settings.isUnitFile file ∧ index.settings.isIncludeFile file)) := by
  intro files units includes
  refine ⟨?_, ?_⟩
  · rw [Index.addDirectory_eq hpath, Index.foldlM_addSourceFile_eq]
  · have hunits := countP_sourceFiles (p := fun file => !index.settings.isIncludeFile file)
      index.settings htree hpath fun _ _ hname => by
        rw [Settings.isIncludeFile, Settings.isIncludeFile, Path.hasExtension_congr hname]
    have hincludes := countP_sourceFiles (p := index.settings.isIncludeFile)
      index.settings htree hpath fun _ _ hname => Path.hasExtension_congr hname _
    have hkinds := countP_kinds_eq_iff (met workspace path directory)
      (fun names => !names.any Index.isSetAside)
      (fun names => index.settings.isUnitFile (names.foldl Path.join path))
      (fun names => index.settings.isIncludeFile (names.foldl Path.join path))
    simp only [units, includes, files, count, Counts.mk.injEq, files_eq hpath, List.countP_map,
      ← List.countP_eq_length_filter, hunits, hincludes]
    have hunit : ∀ a b : Bool, (!a && (a || b)) = (!a && b) := by decide
    have hinclude : ∀ a b : Bool, (a && (a || b)) = a := by decide
    simp only [hunit, hinclude]
    simpa only [Function.comp_def, Bool.not_eq_true', Bool.not_eq_true] using hkinds

open SourceTree in
/-- A unit and an include file in one directory, for instance. -/
theorem count_eq_registered_of_two :
    let workspace : Workspace :=
      { tree := ((FileTree.empty.addDirectory ["src"]).write ["src", "m.pas"] []).write
          ["src", "x.inc"] []
        here := [], systemScratch := "/tmp", run := "1" }
    workspace.tree.WellFormed ∧ workspace.directory? "src" = some ["src"] ∧
      count workspace {} "src" = { units := 1, includes := 1 } := by
  intro workspace
  have htree : workspace.tree.WellFormed := by decide +kernel
  have hpath : workspace.directory? "src" = some ["src"] := by decide +kernel
  obtain ⟨-, hcount⟩ := count_eq_registered_iff workspace {} htree hpath
  refine ⟨htree, hpath, (hcount.2 ?_).trans ?_⟩
  · decide +kernel
  · decide +kernel

open SourceTree in
/-- A copy that an editor has left behind is counted, on the other hand, though it is not taken. -/
theorem count_exceeds_registered :
    let workspace : Workspace :=
      { tree := ((FileTree.empty.addDirectory ["src"]).write ["src", "Main.pas"]
            (Bytes.ofText "unit Main; end.")).write
          ["src", "~Main.pas"] (Bytes.ofText "unit Main; end.")
        here := [], systemScratch := "/tmp", run := "1" }
    workspace.directory? "src" = some ["src"] ∧
      Index.sourceFiles workspace {} "src" ["src"] = ["/src/Main.pas"] ∧
      count workspace {} "src" = { units := 2, includes := 0 } := by
  decide +kernel

end PascalUnits
