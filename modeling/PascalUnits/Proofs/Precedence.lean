import PascalUnits.Project
import PascalUnits.Proofs.Index.Load
import PascalUnits.Proofs.SourceTree

/-!
# Which file a project takes for a name

A project takes files from its `origins` in their order: the roots that are files, its own directory
and the search directories. Read `Offers` first: it says which files an origin offers for units and
which for include files. `Resolves` says what a name is resolved to, namely to what the first origin
offers that offers a file of the name. Registering the files one after the other does the same
(`find?_registerAll`), whatever the origins have in common. The main statement is
`index_resolves_by_precedence`.
-/

namespace PascalUnits

/-- What a file is registered as. -/
inductive SourceKind where
  | unit
  | included
  deriving DecidableEq, Repr

/-- Whether a file below a directory is of a kind. What could be either is an include file. -/
def SourceKind.accepts (settings : Settings) : SourceKind → String → Bool
  | .unit, path => !settings.isIncludeFile path && settings.isUnitFile path
  | .included, path => settings.isIncludeFile path

/-- The files that are registered for the names of a kind. -/
def Index.table (index : Index) : SourceKind → NameTable String
  | .unit => index.unitPaths
  | .included => index.includePaths

/-- The key of the name that a file is registered for. -/
def Location.key (place : Location) : String :=
  UnitName.key (UnitName.ofPath (place.getLast?.getD ""))

/-- Where a project takes files from. -/
inductive Origin where
  | root (path : String)
  | directory (path : String)
  deriving DecidableEq, Repr

namespace Project

/-- The directories of a project: its own one and those that are searched. -/
def directories (project : Project) : List String :=
  project.directory.toList ++ project.search

/-- The origins of files of a kind, the first one first. Roots are units. -/
def origins (project : Project) : SourceKind → List Origin
  | .unit => project.roots.map .root ++ project.directories.map .directory
  | .included => project.directories.map .directory

end Project

/-- An origin offers a file. A root offers the file that it leads to, whatever its name. A directory
offers the files below it that are of the kind, unless there is a name on the way that is set
aside. A directory that is written like the standard input offers none. -/
inductive Offers (workspace : Workspace) (settings : Settings) (kind : SourceKind) :
    Origin → Location → Prop where
  | root {path : String} {place : Location} :
      workspace.file? path = some place → Offers workspace settings kind (.root path) place
  | below {path : String} {directory names : Location} {contents : Bytes} :
      workspace.directory? path = some directory → Path.isStandardInput path = false →
      workspace.tree.node? (directory ++ names) = some (.file contents) →
      (∀ name ∈ names, ¬ Index.isSetAside name) →
      kind.accepts settings (Location.path (directory ++ names)) →
      Offers workspace settings kind (.directory path) (directory ++ names)

/-- What a name is resolved to: a file of the name that the first origin offers that offers one, and
nothing if none does. -/
inductive Resolves (workspace : Workspace) (settings : Settings) (kind : SourceKind)
    (name : String) : List Origin → Option Location → Prop where
  | nowhere : Resolves workspace settings kind name [] none
  | here {origin : Origin} {rest : List Origin} {place : Location} :
      Offers workspace settings kind origin place → place.key = UnitName.key name →
      Resolves workspace settings kind name (origin :: rest) (some place)
  | later {origin : Origin} {rest : List Origin} {result : Option Location} :
      (∀ place, Offers workspace settings kind origin place → place.key ≠ UnitName.key name) →
      Resolves workspace settings kind name rest result →
      Resolves workspace settings kind name (origin :: rest) result

/-- No two files of one kind below a directory are registered for one name. -/
def Unambiguous (workspace : Workspace) (settings : Settings) (path : String) : Prop :=
  ∀ kind first second, Offers workspace settings kind (.directory path) first →
    Offers workspace settings kind (.directory path) second → first.key = second.key →
    first = second

namespace Origin

/-- The files that an origin offers, in order. -/
def places (workspace : Workspace) (settings : Settings) (kind : SourceKind) :
    Origin → List Location
  | .root path => (workspace.file? path).toList
  | .directory path =>
    match workspace.directory? path with
    | none => []
    | some base =>
      if Path.isStandardInput path then []
      else
        ((workspace.tree.filesBelow base).filter fun names =>
          !names.any Index.isSetAside &&
            kind.accepts settings (Location.path (base ++ names))).map (base ++ ·)

/-- The paths of the files that origins offer, in order. -/
def offered (workspace : Workspace) (settings : Settings) (kind : SourceKind)
    (origins : List Origin) : List String :=
  origins.flatMap fun origin => (origin.places workspace settings kind).map Location.path

end Origin

section Offers

variable {workspace : Workspace} {settings : Settings} {kind : SourceKind} {origin : Origin}
  {place : Location}

/-- A file is listed where it is found, if it does not stand in the place of the root directory. -/
theorem FileTree.WellFormed.exists_mem_files_iff {tree : FileTree} (h : tree.WellFormed) :
    (∃ contents, (place, contents) ∈ tree.files) ↔
      ∃ contents, tree.node? place = some (.file contents) := by
  refine exists_congr fun contents => ⟨fun hfile => node?_of_mem_files hfile (h _ hfile).1, ?_⟩
  intro hnode
  have hne : place ≠ [] := by
    rintro rfl
    cases hnode
  rw [node?, if_neg (by simpa using hne)] at hnode
  exact List.mem_filterMap.2 ⟨_, Std.TreeMap.mem_toList_iff_getElem?_eq_some.2 hnode, rfl⟩

/-- The files below a directory are those that are found there. -/
theorem FileTree.WellFormed.mem_filesBelow_iff {tree : FileTree} (h : tree.WellFormed)
    {directory names : Location} :
    names ∈ tree.filesBelow directory ↔
      ∃ contents, tree.node? (directory ++ names) = some (.file contents) := by
  rw [← h.exists_mem_files_iff, filesBelow, List.mem_filterMap]
  constructor
  · rintro ⟨⟨location, contents⟩, hfile, hway⟩
    rw [List.isPrefixOf?_eq_some_iff_append_eq] at hway
    exact ⟨contents, hway ▸ hfile⟩
  · rintro ⟨contents, hfile⟩
    exact ⟨_, hfile, List.isPrefixOf?_eq_some_iff_append_eq.2 rfl⟩

/-- An origin offers the files that are listed for it. -/
theorem mem_places_iff (htree : workspace.tree.WellFormed) :
    place ∈ origin.places workspace settings kind ↔
      Offers workspace settings kind origin place := by
  constructor
  · intro hplace
    cases origin with
    | root path => exact .root (Option.mem_toList.1 hplace)
    | directory path =>
        rw [Origin.places] at hplace
        split at hplace
        · cases hplace
        · rename_i directory hdirectory
          split at hplace
          · cases hplace
          · rename_i hinput
            obtain ⟨names, hnames, rfl⟩ := List.mem_map.1 hplace
            obtain ⟨hbelow, haccepted⟩ := List.mem_filter.1 hnames
            rw [Bool.and_eq_true, Bool.not_eq_true', List.any_eq_false] at haccepted
            obtain ⟨contents, hfile⟩ := htree.mem_filesBelow_iff.1 hbelow
            exact .below hdirectory (Bool.eq_false_of_not_eq_true hinput) hfile haccepted.1
              haccepted.2
  · intro hoffers
    cases hoffers with
    | root hfile => exact Option.mem_toList.2 hfile
    | below hdirectory hinput hfile hnames haccepted =>
        rw [Origin.places, hdirectory]
        simp only [hinput, Bool.false_eq_true, if_false]
        refine List.mem_map.2
          ⟨_, List.mem_filter.2 ⟨htree.mem_filesBelow_iff.2 ⟨_, hfile⟩, ?_⟩, rfl⟩
        rw [Bool.and_eq_true, Bool.not_eq_true', List.any_eq_false]
        exact ⟨hnames, haccepted⟩

/-- Whether files of a directory get in each other's way can be seen from the lists. -/
theorem unambiguous_iff {path : String} (htree : workspace.tree.WellFormed) :
    Unambiguous workspace settings path ↔ ∀ kind,
      ∀ first ∈ (Origin.directory path).places workspace settings kind,
        ∀ second ∈ (Origin.directory path).places workspace settings kind,
          first.key = second.key → first = second := by
  simp only [Unambiguous, ← mem_places_iff htree]
  exact forall_congr' fun kind => ⟨fun h first hfirst second => h first second hfirst,
    fun h first second hfirst => h first hfirst second⟩

/-- What an origin offers is a file. -/
theorem Offers.node? (h : Offers workspace settings kind origin place) :
    ∃ contents, workspace.tree.node? place = some (.file contents) := by
  cases h with
  | below _ _ hfile _ _ => exact ⟨_, hfile⟩
  | root hfile =>
      rw [Workspace.file?] at hfile
      split at hfile
      · rename_i other contents hresolve
        cases hfile
        exact ⟨contents, (Workspace.resolve_eq_ok_iff.1 hresolve).2⟩
      · cases hfile

/-- The name that a file is registered for is that of its place. -/
theorem Offers.registersFor_iff (htree : workspace.tree.WellFormed)
    (h : Offers workspace settings kind origin place) (name : String) :
    Index.registersFor name (Location.path place) ↔ place.key = UnitName.key name := by
  obtain ⟨contents, hfile⟩ := htree.exists_mem_files_iff.2 h.node?
  obtain ⟨hne, hnames⟩ := htree _ hfile
  rcases List.eq_nil_or_concat place with rfl | ⟨earlier, last, rfl⟩
  · exact absurd rfl hne
  · rw [List.concat_eq_append] at hnames ⊢
    rw [Index.registersFor, Path.fileName?_path earlier (hnames last (by simp)), Location.key,
      List.getLast?_concat, beq_iff_eq]

end Offers

section Resolves

variable {workspace : Workspace} {settings : Settings} {kind : SourceKind} {name : String}
  {origins : List Origin} {result other : Option Location}

/-- A root offers one file at most. -/
theorem Offers.eq_of_root {path : String} {first second : Location}
    (hfirst : Offers workspace settings kind (.root path) first)
    (hsecond : Offers workspace settings kind (.root path) second) : first = second := by
  cases hfirst with
  | root hfirst =>
      cases hsecond with
      | root hsecond => exact Option.some.inj (hfirst.symm.trans hsecond)

/-- A name is resolved in one way only, if no directory offers two files for it. -/
theorem Resolves.unique
    (hdistinct : ∀ path, .directory path ∈ origins → Unambiguous workspace settings path)
    (h : Resolves workspace settings kind name origins result)
    (hother : Resolves workspace settings kind name origins other) : result = other := by
  induction h with
  | nowhere =>
      cases hother
      rfl
  | @here origin rest place hoffers hkey =>
      cases hother with
      | later hnone _ => exact absurd hkey (hnone place hoffers)
      | here hoffers' hkey' =>
          -- both files come from one origin
          cases origin with
          | root path => rw [hoffers.eq_of_root hoffers']
          | directory path =>
              rw [hdistinct path List.mem_cons_self kind _ _ hoffers hoffers'
                (hkey.trans hkey'.symm)]
  | later hnone _ ih =>
      cases hother with
      | here hoffers hkey => exact absurd hkey (hnone _ hoffers)
      | later _ hrest =>
          exact ih (fun path hpath => hdistinct path (List.mem_cons_of_mem _ hpath)) hrest

/-- The first of the files that the origins offer one after the other is what a name is resolved
to. -/
theorem exists_resolves (htree : workspace.tree.WellFormed) (settings : Settings)
    (kind : SourceKind) (name : String) (origins : List Origin) :
    ∃ result, Resolves workspace settings kind name origins result ∧
      (Origin.offered workspace settings kind origins).find? (Index.registersFor name) =
        result.map Location.path := by
  induction origins with
  | nil => exact ⟨none, .nowhere, rfl⟩
  | cons origin rest ih =>
      rw [Origin.offered, List.flatMap_cons, List.find?_append, List.find?_map]
      cases hfound : (origin.places workspace settings kind).find?
          (Index.registersFor name ∘ Location.path) with
      | some place =>
          have hoffers := (mem_places_iff htree).1 (List.mem_of_find?_eq_some hfound)
          have hfirst := List.find?_some hfound
          exact ⟨some place, .here hoffers ((hoffers.registersFor_iff htree name).1 hfirst), rfl⟩
      | none =>
          obtain ⟨result, hresolves, hrest⟩ := ih
          refine ⟨result, .later (fun place hoffers hkey => ?_) hresolves, hrest⟩
          exact List.find?_eq_none.1 hfound place ((mem_places_iff htree).2 hoffers)
            ((hoffers.registersFor_iff htree name).2 hkey)

end Resolves

namespace Index

/-- The index with further files registered, for each kind its own. -/
def takes (index : Index) (paths : SourceKind → List String) : Index :=
  { index with
    unitPaths := registerAll index.unitPaths (paths .unit)
    includePaths := registerAll index.includePaths (paths .included) }

theorem table_takes (index : Index) (paths : SourceKind → List String) (kind : SourceKind) :
    (index.takes paths).table kind = registerAll (index.table kind) (paths kind) := by
  cases kind <;> rfl

/-- Files may be registered in two steps. -/
theorem takes_takes (index : Index) (first second : SourceKind → List String) :
    (index.takes first).takes second = index.takes fun kind => first kind ++ second kind := by
  simp only [takes, registerAll, List.foldl_append]

/-- Roots are registered as units. -/
theorem foldlM_addUnitPath_eq (paths : List String) (index : Index) :
    (paths.foldlM addUnitPath index).value =
      index.takes fun kind => if kind = .unit then paths else [] := by
  induction paths generalizing index with
  | nil => rfl
  | cons path rest ih =>
      rw [List.foldlM_cons, Traced.value_bind, ih]
      rfl

variable {workspace : Workspace} {index : Index} {path : String}

/-- The source files of a kind below a directory are the ones that it offers. -/
theorem map_path_places {directory : Location} (h : workspace.directory? path = some directory)
    (settings : Settings) (kind : SourceKind) :
    ((Origin.directory path).places workspace settings kind).map Location.path =
      (sourceFiles workspace settings path directory).filter (kind.accepts settings) := by
  have haccepts (file : String) : (kind.accepts settings file &&
      (settings.isIncludeFile file || settings.isUnitFile file)) =
        kind.accepts settings file := by
    cases kind with
    | unit =>
        rw [SourceKind.accepts]
        cases settings.isIncludeFile file <;> cases settings.isUnitFile file <;> rfl
    | included =>
        rw [SourceKind.accepts]
        cases settings.isIncludeFile file <;> rfl
  simp only [Origin.places, h, sourceFiles]
  split
  · rfl
  · rw [List.filter_filter, List.map_map, candidates, List.filter_map, List.filter_filter]
    simp only [haccepts, Function.comp_def, Bool.and_comm]

/-- A source file that is no include file is a unit. -/
theorem filter_sourceFiles (settings : Settings) (directory : Location) :
    (sourceFiles workspace settings path directory).filter
        (fun file => !settings.isIncludeFile file) =
      (sourceFiles workspace settings path directory).filter
        (SourceKind.accepts settings .unit) := by
  refine List.filter_congr fun file hfile => ?_
  rw [sourceFiles] at hfile
  split at hfile
  · cases hfile
  · have hkind := (List.mem_filter.1 hfile).2
    rw [SourceKind.accepts]
    cases hinclude : settings.isIncludeFile file with
    | true => rfl
    | false =>
        rw [hinclude, Bool.false_or] at hkind
        rw [hkind]
        rfl

/-- Of a directory the files are registered that it offers. -/
theorem addDirectory_eq_takes {directory : Location}
    (h : workspace.directory? path = some directory) (index : Index) :
    (index.addDirectory workspace path).map Traced.value = .ok (index.takes fun kind =>
      ((Origin.directory path).places workspace index.settings kind).map Location.path) := by
  rw [addDirectory_eq h, foldlM_addSourceFile_eq, filter_sourceFiles, takes, map_path_places h,
    map_path_places h]
  rfl

/-- What is no directory offers nothing, and nothing is registered of it. -/
theorem addSearchDirectory_eq (index : Index) (path : String) :
    (Project.addSearchDirectory workspace index path).value = index.takes fun kind =>
      ((Origin.directory path).places workspace index.settings kind).map Location.path := by
  rw [Project.addSearchDirectory]
  cases hdirectory : workspace.directory? path with
  | none =>
      rw [addDirectory, hdirectory]
      simp only [Origin.places, hdirectory, List.map_nil]
      rfl
  | some directory =>
      have htakes := addDirectory_eq_takes hdirectory index
      cases hadd : index.addDirectory workspace path with
      | error error =>
          rw [hadd] at htakes
          cases htakes
      | ok registered =>
          rw [hadd] at htakes
          exact Except.ok.inj htakes

/-- Search directories are registered one after the other. -/
theorem foldlM_addSearchDirectory_eq (search : List String) (index : Index) :
    (search.foldlM (Project.addSearchDirectory workspace) index).value =
      index.takes fun kind =>
        Origin.offered workspace index.settings kind (search.map .directory) := by
  induction search generalizing index with
  | nil => rfl
  | cons path rest ih =>
      rw [List.foldlM_cons, Traced.value_bind, ih, addSearchDirectory_eq, takes_takes]
      rfl

end Index

namespace Project

variable {workspace : Workspace} {settings : Settings} {project : Project}

/-- The files among the roots are what the roots offer. -/
theorem rootFiles_eq (kind : SourceKind) : project.rootFiles workspace =
    Origin.offered workspace settings kind (project.roots.map .root) := by
  rw [rootFiles, Origin.offered, List.flatMap_map, List.filterMap_eq_flatMap_toList,
    List.map_flatMap]
  rfl

/-- The directory of a project is registered if it is one. -/
theorem elim_directory_eq (hdirectory : ∀ path, project.directory = some path →
      ∃ place, workspace.directory? path = some place) (index : Index) :
    (project.directory.elim (.ok (pure index)) (index.addDirectory workspace)).map Traced.value =
      .ok (index.takes fun kind => Origin.offered workspace index.settings kind
        (project.directory.toList.map .directory)) := by
  cases hpath : project.directory with
  | none => rfl
  | some path =>
      obtain ⟨place, hplace⟩ := hdirectory path hpath
      simp only [Origin.offered, Option.elim_some, Option.toList_some, List.map_cons, List.map_nil,
        List.flatMap_singleton]
      exact Index.addDirectory_eq_takes hplace index

/-- Files are offered by the roots, then by the directory of the project, then by the others. -/
theorem offered_origins (workspace : Workspace) (settings : Settings) (project : Project)
    (kind : SourceKind) :
    (if kind = .unit then project.rootFiles workspace else []) ++
        (Origin.offered workspace settings kind (project.directory.toList.map .directory) ++
          Origin.offered workspace settings kind (project.search.map .directory)) =
      Origin.offered workspace settings kind (project.origins kind) := by
  have happend (first second : List Origin) :
      Origin.offered workspace settings kind (first ++ second) =
        Origin.offered workspace settings kind first ++
          Origin.offered workspace settings kind second :=
    List.flatMap_append
  rw [← happend, ← List.map_append, ← directories]
  cases kind with
  | unit =>
      rw [if_pos rfl, rootFiles_eq .unit, ← happend]
      rfl
  | included => rfl

/-- An index registers what the origins offer and loads units then. -/
theorem value_index (hdirectory : ∀ path, project.directory = some path →
      ∃ place, workspace.directory? path = some place) :
    (project.index workspace settings).value = .ok ((({ settings } : Index).takes fun kind =>
      Origin.offered workspace settings kind (project.origins kind)).build workspace
        project.roots).value := by
  have hroots := Index.foldlM_addUnitPath_eq (project.rootFiles workspace) { settings }
  have hown := elim_directory_eq hdirectory
    ((project.rootFiles workspace).foldlM Index.addUnitPath { settings }).value
  rw [index, Traced.value_bind]
  cases hregistered : project.directory.elim (.ok (pure _)) (Index.addDirectory workspace
      ((project.rootFiles workspace).foldlM Index.addUnitPath { settings }).value) with
  | error error =>
      rw [hregistered] at hown
      cases hown
  | ok registered =>
      rw [hregistered] at hown
      have hvalue := Except.ok.inj hown
      show Except.ok ((project.search.foldlM (addSearchDirectory workspace)
        registered.value).value.build workspace project.roots).value = _
      rw [Index.foldlM_addSearchDirectory_eq, hvalue, hroots, Index.takes_takes, Index.takes_takes,
        ← funext (offered_origins workspace settings project)]
      rfl

/-- Whether a file is found for a name does not change while units are loaded. -/
theorem table_build (index : Index) (roots : List String) (kind : SourceKind) :
    (index.build workspace roots).value.table kind = index.table kind := by
  rw [Index.build_index, Index.loadAll_index]
  cases kind <;> rfl

end Project

/-- A project resolves the names of units and include files by one precedence, whatever its settings
and its roots are and whatever directories it has. If its own directory is given and is none, there
is no index. Otherwise there is one, and it finds for each name what the name is resolved to, which
is one thing only. No directory may offer two files of one kind for one name. -/
theorem index_resolves_by_precedence (workspace : Workspace) (settings : Settings)
    (project : Project) (htree : workspace.tree.WellFormed)
    (hdistinct : ∀ path ∈ project.directories, Unambiguous workspace settings path) :
    (∀ path, project.directory = some path → workspace.directory? path = none →
      (project.index workspace settings).value = .error (.io path .noDirectoryThere)) ∧
    ((∀ path, project.directory = some path → ∃ place, workspace.directory? path = some place) →
      ∃ index, (project.index workspace settings).value = .ok index ∧
        ∀ kind name, ∃ result,
          (∀ other, Resolves workspace settings kind name (project.origins kind) other ↔
            other = result) ∧
          (index.table kind).find? name = result.map Location.path) := by
  refine ⟨fun path hpath hnone => ?_, fun hdirectory => ?_⟩
  · rw [Project.index, Traced.value_bind, hpath, Option.elim_some, Index.addDirectory, hnone]
    rfl
  · refine ⟨_, Project.value_index hdirectory, fun kind name => ?_⟩
    have horigins : ∀ path, .directory path ∈ project.origins kind →
        Unambiguous workspace settings path := by
      intro path hpath
      refine hdistinct path ?_
      cases kind <;> simpa [Project.origins] using hpath
    obtain ⟨result, hresolves, hfound⟩ :=
      exists_resolves htree settings kind name (project.origins kind)
    refine ⟨result, fun other => ⟨fun hother => hother.unique horigins hresolves, ?_⟩, ?_⟩
    · rintro rfl
      exact hresolves
    · rw [Project.table_build, Index.table_takes, Index.find?_registerAll, hfound]
      cases kind with
      | unit => rw [Index.table, NameTable.find?_empty, Option.none_or]
      | included => rw [Index.table, NameTable.find?_empty, Option.none_or]

/-- A root that is a file comes before the directory of a project, for instance. -/
theorem index_resolves_root_first :
    let workspace : Workspace :=
      { tree := (((FileTree.empty.addDirectory ["src"]).write ["m.pas"] []).write
            ["src", "m.pas"] []).write ["src", "x.inc"] []
        here := [], systemScratch := "/tmp", run := "1" }
    let project : Project := { roots := ["m.pas"], directory := some "src" }
    workspace.tree.WellFormed ∧
    (∀ path ∈ project.directories, Unambiguous workspace {} path) ∧
    ∃ index, (project.index workspace {}).value = .ok index ∧
      index.unitPaths.find? "M" = some "/m.pas" ∧
      index.includePaths.find? "X" = some "/src/x.inc" := by
  intro workspace project
  have htree : workspace.tree.WellFormed := by decide +kernel
  have hdistinct : ∀ path ∈ project.directories, Unambiguous workspace {} path := by
    refine List.forall_mem_singleton.2 ((unambiguous_iff htree).2 fun kind => ?_)
    cases kind <;> decide +kernel
  have hdirectory : ∀ path, project.directory = some path →
      ∃ place, workspace.directory? path = some place := by
    intro path hpath
    cases hpath
    exact ⟨["src"], by decide +kernel⟩
  obtain ⟨index, hindex, hresolved⟩ :=
    (index_resolves_by_precedence workspace {} project htree hdistinct).2 hdirectory
  refine ⟨htree, hdistinct, index, hindex, ?_, ?_⟩
  · obtain ⟨result, hresult, hfound⟩ := hresolved .unit "M"
    have hroot : Offers workspace {} .unit (.root "m.pas") ["m.pas"] := .root (by decide +kernel)
    rw [← (hresult _).1 (.here hroot (by decide +kernel))] at hfound
    exact hfound
  · obtain ⟨result, hresult, hfound⟩ := hresolved .included "X"
    have hbelow : Offers workspace {} .included (.directory "src") ["src", "x.inc"] :=
      (mem_places_iff htree).1 (by decide +kernel)
    rw [← (hresult _).1 (.here hbelow (by decide +kernel))] at hfound
    exact hfound

/-- A directory that is written like the standard input offers nothing, on the other hand, though
it is there and holds the unit. -/
theorem index_misses_dash_directory :
    let workspace : Workspace :=
      { tree := (FileTree.empty.addDirectory ["-"]).write ["-", "Main.pas"]
          (Bytes.ofText "unit Main; end.")
        here := [], systemScratch := "/tmp", run := "1" }
    let project : Project := { roots := ["Main"], directory := some "-" }
    workspace.directory? "-" = some ["-"] ∧
      workspace.tree.filesBelow ["-"] = [["Main.pas"]] ∧
      Index.isSetAside "Main.pas" = false ∧
      SourceKind.accepts {} .unit (Location.path ["-", "Main.pas"]) ∧
      ∃ index, (project.index workspace {}).value = .ok index ∧
        index.unitPaths.find? "Main" = none := by
  intro workspace project
  have hplace : workspace.directory? "-" = some ["-"] := by decide +kernel
  have hdirectory : ∀ path, project.directory = some path →
      ∃ place, workspace.directory? path = some place := by
    intro path hpath
    cases hpath
    exact ⟨["-"], hplace⟩
  have hoffered : Origin.offered workspace {} .unit (project.origins .unit) = [] := by
    decide +kernel
  refine ⟨hplace, by decide +kernel, by decide +kernel, by decide +kernel, _,
    Project.value_index hdirectory, ?_⟩
  show (Index.table _ .unit).find? "Main" = none
  rw [Project.table_build, Index.table_takes, hoffered]
  exact NameTable.find?_empty _

end PascalUnits
