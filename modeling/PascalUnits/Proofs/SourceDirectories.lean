import PascalUnits.Proofs.Precedence
import PascalUnits.Proofs.Text.Order

/-!
# The directories that hold sources

`SourceTree.Holds` says which files count and in which directory each of them is found, apart from
any walk. A walk meets files in the order of their names from the root on (`Location.MetBefore`,
`pairwise_met`), so the directories come in the order of the first file in each of them
(`Text.exists_firsts`), whatever is met in between. The main statement is
`directories_hold_sources`.
-/

namespace PascalUnits

/-- A sorted walk meets the place `first` before `second`: at the first name in which the ways to
them differ, it takes the one with the lower bytes before the other one. -/
def Location.MetBefore (first second : Location) : Prop :=
  List.Lex (fun name other => Bytes.ofText name < Bytes.ofText other) first second

namespace SourceTree

/-- A source file is found below the root at `place` by following `names`, none of them hidden. Its
extension may be in any letter case. -/
structure IsSourceBelow (workspace : Workspace) (root : String) (place names : Location) :
    Prop where
  found : ∃ contents, workspace.tree.node? (place ++ names) = some (.file contents)
  visible : ∀ name ∈ names, ¬ isHidden name
  extension_eq : ∃ extension, Path.extension? (names.foldl Path.join root) = some extension ∧
    (Text.lower extension = "pas" ∨ Text.lower extension = "inc")

/-- A directory holds a source file that is found by following `names`. The directory is given by
the path to it by way of the root. -/
structure Holds (workspace : Workspace) (root : String) (place names : Location)
    (directory : String) : Prop extends IsSourceBelow workspace root place names where
  parent_eq : Path.parent? (names.foldl Path.join root) = some directory

/-- A path names a source file by its extension, in any letter case. -/
theorem isSource_iff {path : String} :
    isSource path ↔ ∃ extension, Path.extension? path = some extension ∧
      (Text.lower extension = "pas" ∨ Text.lower extension = "inc") := by
  have hpas : Text.lower "pas" = "pas" := by decide
  have hinc : Text.lower "inc" = "inc" := by decide
  rw [isSource, Path.hasExtension]
  cases Path.extension? path with
  | none => simp
  | some extension =>
      simp [Text.sameIgnoringCase, hpas, hinc, @eq_comm _ _ (Text.lower extension)]

end SourceTree

namespace Text

variable {α : Type}

/-- The distinct texts are those of the elements before which no other one has the same text. -/
theorem exists_firsts (seen : Std.TreeSet String) (list : List α) (text : α → String) :
    ∃ firsts : List α, firsts.Sublist list ∧ firsts.map text = distinctFrom seen (list.map text) ∧
      ∀ first ∈ firsts, lower (text first) ∉ seen ∧ ∃ before after,
        list = before ++ first :: after ∧
          ∀ other ∈ before, lower (text other) ≠ lower (text first) := by
  induction list generalizing seen with
  | nil => exact ⟨[], .slnil, rfl, List.forall_mem_nil _⟩
  | cons head rest ih =>
      rw [List.map_cons, distinctFrom]
      split
      · rename_i hseen
        obtain ⟨firsts, hsublist, hmap, hfirsts⟩ := ih seen
        refine ⟨firsts, hsublist.cons head, hmap, fun first hfirst => ?_⟩
        obtain ⟨hnew, before, after, rfl, hbefore⟩ := hfirsts first hfirst
        refine ⟨hnew, head :: before, after, rfl, List.forall_mem_cons.2 ⟨?_, hbefore⟩⟩
        exact fun hsame => hnew (hsame ▸ hseen)
      · rename_i hnew
        obtain ⟨firsts, hsublist, hmap, hfirsts⟩ := ih (seen.insert (lower (text head)))
        refine ⟨head :: firsts, hsublist.cons_cons head, by rw [List.map_cons, hmap],
          List.forall_mem_cons.2 ⟨⟨hnew, [], rest, rfl, List.forall_mem_nil _⟩, ?_⟩⟩
        intro first hfirst
        obtain ⟨hlater, before, after, rfl, hbefore⟩ := hfirsts first hfirst
        rw [Std.TreeSet.mem_insert, not_or] at hlater
        refine ⟨hlater.2, head :: before, after, rfl, List.forall_mem_cons.2 ⟨?_, hbefore⟩⟩
        exact fun hsame => hlater.1 (by rw [hsame]; exact Std.ReflCmp.compare_self)

end Text

namespace Location

variable {first second : Location}

/-- No place is met before itself. -/
theorem MetBefore.irrefl (place : Location) : ¬ place.MetBefore place := by
  intro h
  induction place with
  | nil => cases h
  | cons name rest ih =>
      cases h with
      | rel hlt => exact absurd hlt (List.lt_irrefl _)
      | cons h => exact ih h

/-- Of two places, one is not met both before and after the other one. -/
theorem MetBefore.asymm (h : first.MetBefore second) : ¬ second.MetBefore first := by
  intro h'
  unfold MetBefore at h h'
  induction h with
  | nil => cases h'
  | cons h ih =>
      cases h' with
      | rel hlt => exact absurd hlt (List.lt_irrefl _)
      | cons h' => exact ih h'
  | rel hlt =>
      cases h' with
      | rel hlt' => exact absurd hlt' (List.lt_asymm hlt)
      | cons h' => exact absurd hlt (List.lt_irrefl _)

/-- The places of a tree are kept in the order in which a walk meets them. -/
theorem metBefore_of_compare (h : compare first second = .lt) : first.MetBefore second := by
  induction first generalizing second with
  | nil =>
      cases second with
      | nil => cases h
      | cons name rest => exact .nil
  | cons name rest ih =>
      cases second with
      | nil => cases h
      | cons other rest' =>
          rw [List.compare_cons_cons, Ordering.then_eq_lt] at h
          rcases h with hlt | ⟨heq, hrest⟩
          · exact .rel (Bytes.ofText_lt (compare_lt_iff_lt.1 hlt))
          · rw [compare_eq_iff_eq.1 heq]
            exact .cons (ih hrest)

/-- Where places are in the order of a walk, those that are met before one of them stand before
it. -/
theorem mem_of_metBefore {before after : List Location}
    (hordered : (before ++ first :: after).Pairwise MetBefore)
    (hsecond : second ∈ before ++ first :: after) (h : second.MetBefore first) :
    second ∈ before := by
  rcases List.mem_append.1 hsecond with hearlier | hlater
  · exact hearlier
  · have hbehind := List.pairwise_cons.1 (List.pairwise_append.1 hordered).2.1
    rcases List.mem_cons.1 hlater with rfl | hlater
    · exact absurd h (MetBefore.irrefl _)
    · exact absurd h (hbehind.1 second hlater).asymm

/-- What leads to both places does not change which one is met first. -/
theorem compare_append (base first second : Location) :
    compare (base ++ first) (base ++ second) = compare first second := by
  induction base with
  | nil => rfl
  | cons name base ih =>
      rw [List.cons_append, List.cons_append, List.compare_cons_cons, ih,
        Std.ReflOrd.compare_self]
      rfl

end Location

namespace SourceTree

variable {workspace : Workspace} {root : String} {place : Location}

/-- A walk meets files in the order of their names. -/
theorem pairwise_met (workspace : Workspace) (root : String) (place : Location) :
    (met workspace root place).Pairwise Location.MetBefore := by
  have hfiles : workspace.tree.files.Pairwise fun file other => compare file.1 other.1 = .lt := by
    refine Std.TreeMap.ordered_keys_toList.filterMap _ ?_
    rintro ⟨location, node⟩ ⟨location', node'⟩ hlt file hfile file' hfile'
    cases node <;> cases hfile
    cases node' <;> cases hfile'
    exact hlt
  have hbelow : (workspace.tree.filesBelow place).Pairwise Location.MetBefore := by
    refine hfiles.filterMap _ ?_
    rintro file other hlt names hnames names' hnames'
    rw [List.isPrefixOf?_eq_some_iff_append_eq] at hnames hnames'
    rw [← hnames, ← hnames', Location.compare_append] at hlt
    exact Location.metBefore_of_compare hlt
  rw [met]
  split
  · exact .nil
  · exact hbelow.filter _

/-- Below a root that is not written like the standard input, a walk meets the files that are not
hidden. -/
theorem mem_met_iff (htree : workspace.tree.WellFormed) (hroot : Path.isStandardInput root = false)
    {names : Location} :
    names ∈ met workspace root place ↔
      (∃ contents, workspace.tree.node? (place ++ names) = some (.file contents)) ∧
        ∀ name ∈ names, ¬ isHidden name := by
  rw [met, hroot, if_neg Bool.false_ne_true, List.mem_filter, htree.mem_filesBelow_iff]
  simp

/-- The source files that a walk meets, by the names on the way to them. -/
def sources (workspace : Workspace) (root : String) (place : Location) : List Location :=
  (met workspace root place).filter fun names => isSource (names.foldl Path.join root)

/-- The directory in which a file is found. -/
def directoryOf (root : String) (names : Location) : String :=
  (Path.parent? (names.foldl Path.join root)).getD ""

theorem mem_sources_iff (htree : workspace.tree.WellFormed)
    (hroot : Path.isStandardInput root = false) {names : Location} :
    names ∈ sources workspace root place ↔ IsSourceBelow workspace root place names := by
  rw [sources, List.mem_filter, mem_met_iff htree hroot, isSource_iff]
  exact ⟨fun ⟨⟨hfound, hvisible⟩, hextension⟩ => ⟨hfound, hvisible, hextension⟩,
    fun h => ⟨⟨h.found, h.visible⟩, h.extension_eq⟩⟩

/-- Each of them is found in a directory. -/
theorem parent?_of_mem_sources (htree : workspace.tree.WellFormed)
    (hplace : workspace.directory? root = some place) {names : Location}
    (hnames : names ∈ sources workspace root place) :
    Path.parent? (names.foldl Path.join root) = some (directoryOf root names) := by
  have hmet := (List.mem_filter.1 hnames).1
  have hbelow : names ∈ workspace.tree.filesBelow place := by
    rw [met] at hmet
    split at hmet
    · cases hmet
    · exact (List.mem_filter.1 hmet).1
  obtain ⟨earlier, name, rfl, hname⟩ :=
    htree.exists_name (Workspace.node?_of_directory? hplace).2 hbelow
  obtain ⟨parent, hparent⟩ := Path.exists_parent?_join (earlier.foldl Path.join root) hname
  rw [directoryOf, List.foldl_append, List.foldl_cons, List.foldl_nil, hparent, Option.getD_some]

/-- The directories that are listed are those of the source files that a walk meets. -/
theorem directories_eq (htree : workspace.tree.WellFormed)
    (hplace : workspace.directory? root = some place) :
    directories workspace root =
      Text.distinct ((sources workspace root place).map (directoryOf root)) := by
  rw [directories, files_eq hplace, List.filter_map, List.filterMap_map]
  refine congrArg Text.distinct ?_
  rw [← List.filterMap_eq_map]
  exact List.filterMap_congr fun names hnames => parent?_of_mem_sources htree hplace hnames

end SourceTree

open SourceTree in
/-- The directories that hold sources, in the order in which a sorted walk finds them. No two of
them are alike but for letter case. Each source file below the root is in one of them, if letter
case does not count. Each of them holds such a file, the first one in it: before that file, the walk
meets none that is in the same directory but for letter case. The walk meets these first files in
the order in which their directories are listed. -/
theorem directories_hold_sources (workspace : Workspace) {root : String} {place : Location}
    (htree : workspace.tree.WellFormed) (hplace : workspace.directory? root = some place)
    (hroot : Path.isStandardInput root = false) :
    let listed := directories workspace root
    (listed.Pairwise fun directory other => ¬ Text.sameIgnoringCase directory other) ∧
    (∀ names, IsSourceBelow workspace root place names → ∃ directory other,
      Holds workspace root place names directory ∧ other ∈ listed ∧
      Text.sameIgnoringCase other directory) ∧
    ∃ firsts : List Location,
      List.Forall₂ (Holds workspace root place) firsts listed ∧
      firsts.Pairwise Location.MetBefore ∧
      ∀ first ∈ firsts, ∀ directory, Holds workspace root place first directory →
        ∀ names other, Holds workspace root place names other → names.MetBefore first →
          ¬ Text.sameIgnoringCase other directory := by
  intro listed
  have hlisted : listed = _ := directories_eq htree hplace
  have hsame (directory other : String) :
      Text.sameIgnoringCase directory other ↔ Text.lower directory = Text.lower other :=
    beq_iff_eq
  have hholds {names : Location} (hnames : names ∈ sources workspace root place) :
      Holds workspace root place names (directoryOf root names) :=
    ⟨(mem_sources_iff htree hroot).1 hnames, parent?_of_mem_sources htree hplace hnames⟩
  simp only [hsame]
  refine ⟨?_, ?_, ?_⟩
  · rw [hlisted]
    exact List.pairwise_map.1 (Text.nodup_map_lower_distinct _)
  · intro names hnames
    have hmem := (mem_sources_iff htree hroot).2 hnames
    have hlower : Text.lower (directoryOf root names) ∈ listed.map Text.lower := by
      rw [hlisted, Text.mem_map_lower_distinct]
      exact List.mem_map_of_mem (List.mem_map_of_mem hmem)
    obtain ⟨other, hother, heq⟩ := List.mem_map.1 hlower
    exact ⟨_, other, hholds hmem, hother, heq⟩
  · obtain ⟨firsts, hsublist, hmap, hfirsts⟩ :=
      Text.exists_firsts ∅ (sources workspace root place) (directoryOf root)
    have hordered : (sources workspace root place).Pairwise Location.MetBefore :=
      (pairwise_met workspace root place).filter _
    refine ⟨firsts, ?_, hordered.sublist hsublist, ?_⟩
    · rw [hlisted, Text.distinct, ← hmap, List.forall₂_map_right_iff, List.forall₂_same]
      exact fun first hfirst => hholds (hsublist.subset hfirst)
    · intro first hfirst directory hdirectory names other hother hbefore hlower
      obtain ⟨-, before, after, hcut, hnew⟩ := hfirsts first hfirst
      have hmem := (mem_sources_iff htree hroot).2 hother.toIsSourceBelow
      have hnames : directoryOf root names = other := by
        rw [directoryOf, hother.parent_eq, Option.getD_some]
      have hname : directoryOf root first = directory := by
        rw [directoryOf, hdirectory.parent_eq, Option.getD_some]
      rw [hcut] at hmem hordered
      have hearlier := Location.mem_of_metBefore hordered hmem hbefore
      exact hnew names hearlier (by rw [hnames, hname, hlower])

open SourceTree in
/-- Two directories that differ in letter case only, for instance, and one that is hidden. The
second one of the two is represented by the first. -/
theorem directories_hold_sources_of_two :
    let workspace : Workspace :=
      { tree := (((FileTree.empty.addDirectory ["p"]).write ["p", "Lib", "b.INC"] []).write
          ["p", "lib", "c.pas"] []).write ["p", ".git", "d.pas"] []
        here := [], systemScratch := "/tmp", run := "1" }
    workspace.tree.WellFormed ∧ workspace.directory? "p" = some ["p"] ∧
      Path.isStandardInput "p" = false ∧ directories workspace "p" = ["p/Lib"] ∧
      ∃ directory other, Holds workspace "p" ["p"] ["lib", "c.pas"] directory ∧
        other ∈ directories workspace "p" ∧ Text.sameIgnoringCase other directory := by
  intro workspace
  have htree : workspace.tree.WellFormed := by decide +kernel
  have hplace : workspace.directory? "p" = some ["p"] := by decide +kernel
  have hroot : Path.isStandardInput "p" = false := by decide +kernel
  obtain ⟨-, hholds, -⟩ := directories_hold_sources workspace htree hplace hroot
  refine ⟨htree, hplace, hroot, by decide +kernel, hholds ["lib", "c.pas"] ⟨⟨[], ?_⟩, ?_, ?_⟩⟩
  · decide +kernel
  · decide +kernel
  · exact ⟨"pas", by decide +kernel, .inl (by decide +kernel)⟩

open SourceTree in
/-- Below a directory that is written like the standard input, on the other hand, no source is
found. -/
theorem directories_miss_dash_directory :
    let workspace : Workspace :=
      { tree := (FileTree.empty.addDirectory ["-"]).write ["-", "Main.pas"]
          (Bytes.ofText "unit Main; end.")
        here := [], systemScratch := "/tmp", run := "1" }
    workspace.directory? "-" = some ["-"] ∧
      Holds workspace "-" ["-"] ["Main.pas"] "-" ∧ directories workspace "-" = [] := by
  intro workspace
  have hsource : IsSourceBelow workspace "-" ["-"] ["Main.pas"] := by
    refine ⟨⟨Bytes.ofText "unit Main; end.", ?_⟩, ?_, ⟨"pas", ?_, .inl ?_⟩⟩
    · decide +kernel
    · decide +kernel
    · decide +kernel
    · decide +kernel
  have hparent : Path.parent? (["Main.pas"].foldl Path.join "-") = some "-" := by decide +kernel
  exact ⟨by decide +kernel, ⟨hsource, hparent⟩, by decide +kernel⟩

end PascalUnits
