import PascalUnits.Program
import PascalUnits.Proofs.Writing

/-!
# What the program does to the file tree

A report is staged in a temporary file and then copied to its place. The two are never the same,
because the name of the temporary file is longer (`stage_ne_place`), so the report is there and the
temporary file is not when all is done (`writeReport_of_writable`); and where either cannot be
written, the tree is as before (`writeReport_of_not_writable`). The main statement is
`uses_writes_all_or_nothing`.
-/

namespace PascalUnits

namespace Program

open Workspace

variable {workspace : Workspace} {index : Index} {path name : String} {format : ReportFormat}
  {stage place : Location}

/-- The file name of a temporary file ends with that of the report. -/
theorem exists_fileName?_stagingPath (workspace : Workspace)
    (hname : Path.fileName? path = some name) :
    ∃ front, Path.fileName? (stagingPath workspace path) = some (front ++ "-" ++ name) := by
  obtain ⟨front, hstaging⟩ : ∃ front, stagingPath workspace path = front ++ ("-" ++ name) := by
    rw [stagingPath, hname, Option.getD_some, Path.join]
    split
    · exact ⟨_, String.append_assoc⟩
    · split
      · exact ⟨_, by rw [← String.append_assoc, ← String.append_assoc, String.append_assoc]⟩
      · exact ⟨_, by rw [← String.append_assoc, ← String.append_assoc, String.append_assoc]⟩
  have hslash : '/' ∉ ("-" ++ name).toList := by
    rw [String.toList_append, List.mem_append, not_or]
    exact ⟨by decide, Path.not_mem_fileName hname⟩
  obtain ⟨earlier, piece, hpieces⟩ := Text.splitChars_append_suffix hslash front.toList
  have hsplit : Text.splitOn '/' (stagingPath workspace path) =
      earlier.map String.ofList ++ [String.ofList piece ++ "-" ++ name] := by
    rw [hstaging, Text.splitOn, String.toList_append, hpieces, List.map_append, List.map_singleton,
      String.ofList_append, String.ofList_toList, String.append_assoc]
  have hdash : '-' ∈ (String.ofList piece ++ "-" ++ name).toList := by simp
  refine ⟨String.ofList piece, ?_⟩
  have hother : ∀ other : String, '-' ∉ other.toList →
      String.ofList piece ++ "-" ++ name ≠ other := by
    rintro other hother rfl
    exact hother hdash
  rw [Path.fileName?_of_splitOn hsplit (hother "" (by decide)) (hother "." (by decide)),
    if_neg (hother ".." (by decide))]

/-- The form of a report is known from a file name. -/
theorem exists_fileName? (h : ReportFormat.ofPath path = .ok format) :
    ∃ name, Path.fileName? path = some name := by
  cases hname : Path.fileName? path with
  | some name => exact ⟨name, rfl⟩
  | none =>
      have hlower : Text.lower "" = "" := by decide
      simp [ReportFormat.ofPath, Path.extension?, hname, hlower] at h

/-- A report in the given form can be written to the given place. -/
structure Writable (workspace : Workspace) (path : String) (format : ReportFormat)
    (place : Location) : Prop where
  format_eq : ReportFormat.ofPath path = .ok format
  stages : ∃ stage, workspace.target (stagingPath workspace path) = .ok stage
  target_eq : workspace.target path = .ok place

/-- A report is not staged at its own place. -/
theorem stage_ne_place (hformat : ReportFormat.ofPath path = .ok format)
    (hstage : workspace.target (stagingPath workspace path) = .ok stage)
    (hplace : workspace.target path = .ok place) : stage ≠ place := by
  obtain ⟨name, hname⟩ := exists_fileName? hformat
  obtain ⟨front, hstaged⟩ := exists_fileName?_stagingPath workspace hname
  obtain ⟨directory, rfl⟩ := exists_eq_append_of_target hplace hname
  obtain ⟨scratch, rfl⟩ := exists_eq_append_of_target hstage hstaged
  intro hsame
  have hlast := List.singleton_inj.1 (List.append_inj_right' hsame rfl)
  have hlength := congrArg String.length hlast
  rw [String.length_append, String.length_append, show "-".length = 1 from rfl] at hlength
  omega

/-- The tree in which a report has been staged. -/
def stagedTree (tree : FileTree) (stage : Location) (contents : Bytes) : FileTree :=
  (tree.write stage []).write stage contents

theorem node?_stagedTree {tree : FileTree} {other : Location} {contents : Bytes} (h : stage ≠ []) :
    (stagedTree tree stage contents).node? other =
      if other = stage then some (.file contents) else tree.node? other := by
  rw [stagedTree, FileTree.node?_write h, FileTree.node?_write h]
  split <;> rfl

theorem sameDirectories_stagedTree {tree : FileTree} (h : tree.node? stage ≠ some .directory)
    (contents : Bytes) : tree.SameDirectories (stagedTree tree stage contents) := by
  intro other
  rw [node?_stagedTree (FileTree.ne_nil_of_node? h)]
  split
  · rename_i hsame
    simp [hsame, h]
  · rfl

/-- What comes of writing a report whose form is known, if there is a place to stage it. -/
theorem value_writeReport (index : Index) (hformat : ReportFormat.ofPath path = .ok format)
    (hstage : workspace.target (stagingPath workspace path) = .ok stage) :
    let contents := Bytes.ofText (Report.write index format).value
    let tree := stagedTree workspace.tree stage contents
    (writeReport workspace index path).value =
      match { workspace with tree }.target path with
      | .error fault =>
        ({ workspace with tree := (workspace.tree.write stage []).erase stage },
          .error (.io path fault))
      | .ok place =>
        ({ workspace with tree := tree.write place contents }.remove (stagingPath workspace path),
          .ok ()) := by
  intro contents tree
  obtain ⟨-, -, hnode⟩ := target_eq_ok_iff.1 hstage
  have hne := FileTree.ne_nil_of_node? hnode
  have hopened : (workspace.tree.write stage []).node? stage = some (.file []) := by
    rw [FileTree.node?_write hne, if_pos rfl]
  have hsame := FileTree.sameDirectories_write hnode []
  have hfilled := (target_eq_ok_iff_of_sameDirectories hsame).2 hstage
  unfold writeReport
  rw [hformat]
  simp only [write_eq hstage, Traced.value_bind, write_eq hfilled, remove_eq hstage hsame hopened]
  simp only [bind, Except.bind, Workspace.write, stagedTree, tree, contents]
  cases { workspace with
    tree := (workspace.tree.write stage []).write stage
      (Bytes.ofText (Report.write index format).value) }.target path <;> rfl

/-- A report that can be written is written to its place, and nothing else changes. -/
theorem writeReport_of_writable (index : Index)
    (hfree : workspace.file? (stagingPath workspace path) = none)
    (h : Writable workspace path format place) :
    ∃ tree : FileTree,
      (writeReport workspace index path).value = ({ workspace with tree }, .ok ()) ∧
      ∀ other, tree.node? other =
        if other = place then some (.file (Bytes.ofText (Report.write index format).value))
        else workspace.tree.node? other := by
  obtain ⟨stage, hstage⟩ := h.stages
  have hne := stage_ne_place h.format_eq hstage h.target_eq
  have hstageNode := node?_eq_none hfree hstage
  have hstageFree : workspace.tree.node? stage ≠ some .directory := by simp [hstageNode]
  have hvalue := value_writeReport index h.format_eq hstage
  generalize Bytes.ofText (Report.write index format).value = contents at hvalue ⊢
  have hsame := sameDirectories_stagedTree hstageFree contents
  have htarget := (target_eq_ok_iff_of_sameDirectories hsame).2 h.target_eq
  obtain ⟨-, -, hplace⟩ := target_eq_ok_iff.1 htarget
  have hplaceNil := FileTree.ne_nil_of_node? hplace
  have hstageNil := FileTree.ne_nil_of_node? hstageFree
  have hcopied : workspace.tree.SameDirectories
      ((stagedTree workspace.tree stage contents).write place contents) := fun other =>
    (FileTree.sameDirectories_write hplace contents other).trans (hsame other)
  have hfile : ((stagedTree workspace.tree stage contents).write place contents).node? stage =
      some (.file contents) := by
    rw [FileTree.node?_write hplaceNil, if_neg hne, node?_stagedTree hstageNil, if_pos rfl]
  simp only [htarget, remove_eq hstage hcopied hfile] at hvalue
  refine ⟨_, hvalue, fun other => ?_⟩
  rw [FileTree.node?_erase hstageNil, FileTree.node?_write hplaceNil, node?_stagedTree hstageNil]
  by_cases hother : other = stage
  · rw [if_pos hother, hother, if_neg hne, hstageNode]
  · rw [if_neg hother, if_neg hother]

/-- If a report cannot be written, the file tree is as before. -/
theorem writeReport_of_not_writable (index : Index)
    (hfree : workspace.file? (stagingPath workspace path) = none)
    (h : ∀ format place, ¬ Writable workspace path format place) :
    ∃ (tree : FileTree) (error : Error),
      (writeReport workspace index path).value = ({ workspace with tree }, .error error) ∧
      ∀ place, tree.node? place = workspace.tree.node? place := by
  cases hformat : ReportFormat.ofPath path with
  | error error =>
      exact ⟨workspace.tree, error, by unfold writeReport; rw [hformat]; rfl, fun _ => rfl⟩
  | ok format =>
      cases hstage : workspace.target (stagingPath workspace path) with
      | error fault =>
          refine ⟨workspace.tree, .io (stagingPath workspace path) fault, ?_, fun _ => rfl⟩
          unfold writeReport
          rw [hformat]
          simp only [Traced.value_bind, Workspace.write, hstage]
          rfl
      | ok stage =>
          have hvalue := value_writeReport index hformat hstage
          have hstageNode := node?_eq_none hfree hstage
          have hstageFree : workspace.tree.node? stage ≠ some .directory := by simp [hstageNode]
          have hstageNil := FileTree.ne_nil_of_node? hstageFree
          have hsame := sameDirectories_stagedTree hstageFree
            (Bytes.ofText (Report.write index format).value)
          dsimp only at hvalue
          split at hvalue
          · refine ⟨_, _, hvalue, fun place => ?_⟩
            rw [FileTree.node?_erase hstageNil, FileTree.node?_write hstageNil]
            split
            · rename_i hsamePlace
              rw [hsamePlace, hstageNode]
            · rfl
          · rename_i place htarget
            have htarget := (target_eq_ok_iff_of_sameDirectories hsame).1 htarget
            exact absurd ⟨hformat, ⟨stage, hstage⟩, htarget⟩ (h format place)

/-- No temporary file is left where a report has been written. -/
theorem file?_stagingPath_eq_none {tree : FileTree} {contents : Bytes}
    (hfree : workspace.file? (stagingPath workspace path) = none)
    (h : Writable workspace path format place)
    (hnodes : ∀ other, tree.node? other =
      if other = place then some (.file contents) else workspace.tree.node? other) :
    { workspace with tree }.file? (stagingPath workspace path) = none := by
  obtain ⟨stage, hstage⟩ := h.stages
  obtain ⟨-, hlocate, -⟩ := target_eq_ok_iff.1 hstage
  obtain ⟨-, -, hplace⟩ := target_eq_ok_iff.1 h.target_eq
  refine file?_eq_none hfree (fun other => ?_) fun other hother => ?_
  · rw [hnodes]
    split
    · rename_i hsame
      simp [hsame, hplace]
    · rfl
  · cases hlocate.symm.trans hother
    rw [hnodes, if_neg (stage_ne_place h.format_eq hstage h.target_eq)]

/-- What comes of a report is what comes of writing it. -/
theorem value_report (workspace : Workspace) (index : Index) (path : String) :
    (report workspace index path).value =
      match (writeReport workspace index path).value with
      | (later, .error error) => { workspace := later, failure := some { error } }
      | (later, .ok ()) => { output := Report.lines [path], workspace := later } := by
  rw [report, Traced.value_bind]
  rcases (writeReport workspace index path).value with ⟨later, error | _⟩ <;> rfl

/-- A report is written to its place or not at all. -/
theorem report_cases (index : Index)
    (hfree : workspace.file? (stagingPath workspace path) = none) :
    (∃ tree format place, Writable workspace path format place ∧
      (report workspace index path).value =
        { output := Report.lines [path], workspace := { workspace with tree } } ∧
      ∀ other, tree.node? other =
        if other = place then some (.file (Bytes.ofText (Report.write index format).value))
        else workspace.tree.node? other) ∨
    ∃ tree error, (∀ format place, ¬ Writable workspace path format place) ∧
      (report workspace index path).value =
        { workspace := { workspace with tree }, failure := some { error } } ∧
      ∀ place, tree.node? place = workspace.tree.node? place := by
  rw [value_report]
  by_cases hwritable : ∃ format place, Writable workspace path format place
  · obtain ⟨format, place, hwritable⟩ := hwritable
    obtain ⟨tree, hwritten, hnodes⟩ := writeReport_of_writable index hfree hwritable
    exact .inl ⟨tree, format, place, hwritable, by rw [hwritten], hnodes⟩
  · have hnone : ∀ format place, ¬ Writable workspace path format place :=
      fun format place h => hwritable ⟨format, place, h⟩
    obtain ⟨tree, error, hwritten, hnodes⟩ := writeReport_of_not_writable index hfree hnone
    exact .inr ⟨tree, error, hnone, by rw [hwritten], hnodes⟩

/-- Printing the chains to a unit writes nothing. -/
theorem workspace_explain (workspace : Workspace) (index : Index) (target : String) :
    (explain workspace index target).value.workspace = workspace := by
  rw [explain, Traced.value_bind]
  split <;> rfl

/-- The index that the command for uses works on. -/
def usesIndex (workspace : Workspace) (settingsPath : Option String) (sources : SourceArguments)
    (interfaceOnly : Bool) : Except Error Index := do
  let settings ← (settings workspace settingsPath).value
  let settings := { settings with interfaceOnly := settings.interfaceOnly || interfaceOnly }
  ((project workspace settings sources).index workspace settings).value

/-- Without an index nothing is done. With it the chains to a unit are printed or a report is
written. -/
theorem value_run_uses (workspace : Workspace) {invocation : Invocation} {sources : SourceArguments}
    {output why : Option String} {interfaceOnly : Bool}
    (hcommand : invocation.command = .uses sources output why interfaceOnly) :
    (∃ failure, usesIndex workspace invocation.settingsPath sources interfaceOnly =
        .error failure.error ∧
      (run workspace invocation).value = { workspace, failure := some failure }) ∨
    ∃ index, usesIndex workspace invocation.settingsPath sources interfaceOnly = .ok index ∧
      (run workspace invocation).value =
        (why.elim (report workspace index (output.getD (defaultOutput sources.roots)))
          (explain workspace index)).value := by
  rw [run, hcommand, usesIndex, Traced.value_bind]
  cases hsettings : (settings workspace invocation.settingsPath).value with
  | error error => exact .inl ⟨{ error }, rfl, rfl⟩
  | ok settings =>
      let effective := { settings with interfaceOnly := settings.interfaceOnly || interfaceOnly }
      simp only [runCommand, withIndex, bind, Except.bind]
      cases hindex : ((project workspace effective sources).index workspace effective).value with
      | error error =>
          exact .inl ⟨{ error, whileIndexing := true }, rfl, rfl⟩
      | ok index =>
          exact .inr ⟨index, rfl, by cases why <;> rfl⟩

end Program

open Program

/-- The command for uses does all of its work on the file tree or nothing. Let no file be in the way
of the temporary one. Then none is there afterwards, and nothing but the file tree changes. If the
command fails, or prints the chains to a unit, the tree is as before. Otherwise it succeeds just
when there is an index and its report can be written: the path asks for a known form, and there is a
place for the temporary file and one for the report. Then the file in the latter place is the report
of the index in this form, and all else is as before. -/
theorem uses_writes_all_or_nothing (workspace : Workspace) {invocation : Invocation}
    {sources : SourceArguments} {output why : Option String} {interfaceOnly : Bool}
    (hcommand : invocation.command = .uses sources output why interfaceOnly)
    (hfree : workspace.file?
      (stagingPath workspace (output.getD (defaultOutput sources.roots))) = none) :
    let path := output.getD (defaultOutput sources.roots)
    let built := usesIndex workspace invocation.settingsPath sources interfaceOnly
    let outcome := (run workspace invocation).value
    let later := outcome.workspace
    later = { workspace with tree := later.tree } ∧
    later.file? (stagingPath workspace path) = none ∧
    (outcome.failure.isSome → ∀ place, later.tree.node? place = workspace.tree.node? place) ∧
    (why.isSome → later = workspace) ∧
    (why = none →
      (outcome.failure = none ↔
        ∃ index format place, built = .ok index ∧ Writable workspace path format place) ∧
      ∀ index format place, built = .ok index → Writable workspace path format place →
        ∀ other, later.tree.node? other =
          if other = place then some (.file (Bytes.ofText (Report.write index format).value))
          else workspace.tree.node? other) := by
  intro path built outcome later
  have hunchanged : later = workspace → later = { workspace with tree := later.tree } ∧
      later.file? (stagingPath workspace path) = none ∧
      ∀ place, later.tree.node? place = workspace.tree.node? place := by
    intro hlater
    rw [hlater]
    exact ⟨rfl, hfree, fun _ => rfl⟩
  rcases value_run_uses workspace hcommand with ⟨failure, hbuilt, hrun⟩ | ⟨index, hbuilt, hrun⟩
  · have hlater : later = workspace := congrArg Outcome.workspace hrun
    have hfailure : outcome.failure = some failure := congrArg Outcome.failure hrun
    obtain ⟨hrest, hstaged, hkept⟩ := hunchanged hlater
    refine ⟨hrest, hstaged, fun _ => hkept, fun _ => hlater, fun _ => ?_⟩
    simp [hfailure, built, hbuilt]
  cases why with
  | some target =>
      have hlater : later = workspace :=
        (congrArg Outcome.workspace hrun).trans (workspace_explain workspace index target)
      obtain ⟨hrest, hstaged, hkept⟩ := hunchanged hlater
      exact ⟨hrest, hstaged, fun _ => hkept, fun _ => hlater, nofun⟩
  | none =>
      rw [Option.elim_none] at hrun
      rcases report_cases index hfree with
        ⟨tree, format, place, hwritable, hreport, hnodes⟩ | ⟨tree, error, hnone, hreport, hnodes⟩
      · have hlater : later = { workspace with tree } :=
          congrArg Outcome.workspace (hrun.trans hreport)
        have hfailure : outcome.failure = none := congrArg Outcome.failure (hrun.trans hreport)
        refine ⟨by rw [hlater], ?_, by simp [hfailure], nofun, fun _ => ⟨?_, ?_⟩⟩
        · rw [hlater]
          exact file?_stagingPath_eq_none hfree hwritable hnodes
        · exact ⟨fun _ => ⟨index, format, place, hbuilt, hwritable⟩, fun _ => hfailure⟩
        · intro index' format' place' hbuilt' hwritable' other
          cases hbuilt.symm.trans hbuilt'
          cases hwritable.format_eq.symm.trans hwritable'.format_eq
          cases hwritable.target_eq.symm.trans hwritable'.target_eq
          rw [hlater]
          exact hnodes other
      · have hlater : later = { workspace with tree } :=
          congrArg Outcome.workspace (hrun.trans hreport)
        have hfailure : outcome.failure = some { error } :=
          congrArg Outcome.failure (hrun.trans hreport)
        refine ⟨by rw [hlater], ?_, fun _ => by rw [hlater]; exact hnodes, nofun, fun _ => ⟨?_, ?_⟩⟩
        · rw [hlater]
          refine Workspace.file?_eq_none hfree (fun other => ?_) fun other _ => hnodes other
          rw [hnodes]
        · rw [hfailure]
          refine ⟨nofun, ?_⟩
          rintro ⟨_, format, place, _, h⟩
          exact absurd h (hnone format place)
        · intro _ format place _ h
          exact absurd h (hnone format place)

/-- A run in whose only directory are its source, its temporary file and its report, for
instance. -/
theorem uses_writes_beside_source :
    let workspace : Workspace :=
      { tree := FileTree.empty.write ["m.pas"] [66], here := [], systemScratch := "/", run := "1" }
    let invocation : Invocation := { command := .uses { roots := ["m.pas"] } none none false }
    let outcome := (run workspace invocation).value
    workspace.file? (stagingPath workspace (defaultOutput ["m.pas"])) = none ∧
    outcome.failure = none ∧
    outcome.workspace.file? "/unitgraph-1-m.txt" = none ∧
    outcome.workspace.tree.node? ["m.pas"] = some (.file [66]) ∧
    ∃ index, usesIndex workspace none { roots := ["m.pas"] } false = .ok index ∧
      outcome.workspace.tree.node? ["m.txt"] =
        some (.file (Bytes.ofText (Report.write index .text).value)) := by
  intro workspace invocation outcome
  have hunit : UnitName.ofPath "m.pas" = "m" := by decide +kernel
  have hpath : defaultOutput ["m.pas"] = "m.txt" := by
    rw [defaultOutput, List.headD_cons, hunit]
    rfl
  have hstaging : stagingPath workspace "m.txt" = "/unitgraph-1-m.txt" := by decide +kernel
  have hfree : workspace.file? (stagingPath workspace (defaultOutput ["m.pas"])) = none := by
    rw [hpath, hstaging]
    decide +kernel
  have hwritable : Writable workspace "m.txt" .text ["m.txt"] := by
    refine ⟨eq_ok_of_toOption (by decide +kernel),
      ⟨["unitgraph-1-m.txt"], eq_ok_of_toOption ?_⟩, eq_ok_of_toOption (by decide +kernel)⟩
    rw [hstaging]
    decide +kernel
  have hcommand : invocation.command = .uses { roots := ["m.pas"] } none none false := rfl
  obtain ⟨index, hbuilt⟩ : ∃ index,
      usesIndex workspace none { roots := ["m.pas"] } false = .ok index := ⟨_, rfl⟩
  obtain ⟨-, hstaged, -, -, hreport⟩ := uses_writes_all_or_nothing workspace hcommand hfree
  rw [Option.getD_none, hpath] at hstaged hreport
  obtain ⟨hsucceeds, hnodes⟩ := hreport rfl
  have hnodes := hnodes index .text ["m.txt"] hbuilt hwritable
  refine ⟨hfree, hsucceeds.2 ⟨index, .text, ["m.txt"], hbuilt, hwritable⟩, hstaging ▸ hstaged, ?_,
    index, hbuilt, ?_⟩
  · rw [hnodes, if_neg (by decide)]
    decide +kernel
  · rw [hnodes, if_pos rfl]

end PascalUnits
