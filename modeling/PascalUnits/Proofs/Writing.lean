import PascalUnits.Proofs.Checked
import PascalUnits.Proofs.Path
import PascalUnits.Workspace

/-!
# Writing and removing files

Where a path leads depends on where directories are, and on nothing else (`follow_eq_ok_iff`), so it
leads to the same place when a file is written or removed. A path by which a file can be written
ends with the name of the file (`exists_eq_append_of_target`).
-/

namespace PascalUnits

/-- A result is known from what it is as an option. -/
theorem eq_ok_of_toOption {ε α : Type} {result : Except ε α} {a : α}
    (h : result.toOption = some a) : result = .ok a := by
  cases result with
  | error error => cases h
  | ok b => exact congrArg Except.ok (Option.some.inj h)

namespace FileTree

variable {tree : FileTree} {place location : Location} {contents : Bytes}

/-- A file that is written is found in its place, and all else as before. -/
theorem node?_write (hplace : place ≠ []) :
    (tree.write place contents).node? location =
      if location = place then some (.file contents) else tree.node? location := by
  cases location with
  | nil => simp [node?, hplace.symm]
  | cons name rest =>
      simp [node?, write, Std.TreeMap.getElem?_insert, eq_comm (a := place)]

/-- Nothing is found at a place that is erased, and all else as before. -/
theorem node?_erase (hplace : place ≠ []) :
    (tree.erase place).node? location =
      if location = place then none else tree.node? location := by
  cases location with
  | nil => simp [node?, hplace.symm]
  | cons name rest =>
      simp [node?, erase, Std.TreeMap.getElem?_erase, eq_comm (a := place)]

/-- The root directory is a directory. -/
theorem ne_nil_of_node? (h : tree.node? place ≠ some .directory) : place ≠ [] := by
  rintro rfl
  exact h rfl

/-- Two trees have the same directories. -/
def SameDirectories (tree other : FileTree) : Prop :=
  ∀ place, other.node? place = some .directory ↔ tree.node? place = some .directory

/-- Where no directory is a file can be written. -/
theorem sameDirectories_write (h : tree.node? place ≠ some .directory) (contents : Bytes) :
    SameDirectories tree (tree.write place contents) := by
  intro location
  rw [node?_write (ne_nil_of_node? h)]
  split
  · rename_i hsame
    simp [hsame, h]
  · rfl

end FileTree

namespace Workspace

variable {workspace : Workspace} {tree other : FileTree} {start place : Location}
  {path name : String} {rest : List String}

/-- Where one name leads from a directory. -/
def enter (start : Location) (name : String) : Location :=
  if name = "" ∨ name = "." then start
  else if name = ".." then start.dropLast
  else start ++ [name]

/-- Names lead on from directories only. -/
theorem follow_cons_eq_ok_iff :
    follow tree start (name :: rest) = .ok place ↔
      tree.node? start = some .directory ∧ follow tree (enter start name) rest = .ok place := by
  rw [follow, enter]
  rcases tree.node? start with _ | _ | _
  · simp
  · simp only [true_and]
    split
    · rfl
    · split <;> rfl
  · simp

/-- Names lead where the names after the first ones lead from where these lead. -/
theorem follow_append_eq_ok_iff {names : List String} :
    follow tree start (names ++ rest) = .ok place ↔
      ∃ middle, follow tree start names = .ok middle ∧ follow tree middle rest = .ok place := by
  induction names generalizing start with
  | nil => simp [follow]
  | cons name names ih =>
      simp only [List.cons_append, follow_cons_eq_ok_iff, ih]
      grind

/-- Names lead to the same place where directories are the same. -/
theorem follow_eq_ok_iff (h : tree.SameDirectories other) {names : List String} :
    follow other start names = .ok place ↔ follow tree start names = .ok place := by
  induction names generalizing start with
  | nil => rfl
  | cons name names ih => rw [follow_cons_eq_ok_iff, follow_cons_eq_ok_iff, h, ih]

/-- So do paths. -/
theorem locate_eq_ok_iff (h : workspace.tree.SameDirectories tree) :
    { workspace with tree }.locate path = .ok place ↔ workspace.locate path = .ok place := by
  rw [locate, locate]
  split
  · rfl
  · exact follow_eq_ok_iff h

/-- A file can be written where no directory is, by a path without a slash at its end. -/
theorem target_eq_ok_iff :
    workspace.target path = .ok place ↔ Path.endsWithSlash path = false ∧
      workspace.locate path = .ok place ∧ workspace.tree.node? place ≠ some .directory := by
  rw [target]
  cases Path.endsWithSlash path with
  | true =>
      -- the bare path may lead nowhere, but in either case there is an error
      simp only [if_true, bind, Except.bind, reduceCtorEq, false_and, iff_false]
      split
      · split <;> simp
      · simp
  | false =>
      rw [if_neg Bool.false_ne_true, bind_eq_ok_iff]
      constructor
      · rintro ⟨found, hlocate, hfound⟩
        split at hfound
        · cases hfound
        · rename_i hother
          cases hfound
          exact ⟨rfl, hlocate, hother⟩
      · rintro ⟨-, hlocate, hplace⟩
        refine ⟨place, hlocate, ?_⟩
        split
        · rename_i hdirectory
          exact absurd hdirectory hplace
        · rfl

/-- Files can be written by the same paths where directories are the same. -/
theorem target_eq_ok_iff_of_sameDirectories (h : workspace.tree.SameDirectories tree) :
    { workspace with tree }.target path = .ok place ↔ workspace.target path = .ok place := by
  rw [target_eq_ok_iff, target_eq_ok_iff, locate_eq_ok_iff h, ne_eq, h place]

theorem resolve_eq_ok_iff {node : Node} :
    workspace.resolve path = .ok (place, node) ↔
      workspace.locate path = .ok place ∧ workspace.tree.node? place = some node := by
  rw [resolve, bind_eq_ok_iff]
  constructor
  · rintro ⟨found, hlocate, hfound⟩
    split at hfound
    · rename_i there hnode
      cases hfound
      exact ⟨hlocate, hnode⟩
    · cases hfound
  · rintro ⟨hlocate, hnode⟩
    exact ⟨place, hlocate, by rw [hnode]⟩

theorem file?_eq_some_iff :
    workspace.file? path = some place ↔ workspace.locate path = .ok place ∧
      ∃ contents, workspace.tree.node? place = some (.file contents) := by
  rw [file?]
  constructor
  · intro hfile
    split at hfile
    · rename_i found contents hresolve
      cases hfile
      obtain ⟨hlocate, hnode⟩ := resolve_eq_ok_iff.1 hresolve
      exact ⟨hlocate, contents, hnode⟩
    · cases hfile
  · rintro ⟨hlocate, contents, hnode⟩
    rw [resolve_eq_ok_iff.2 ⟨hlocate, hnode⟩]

/-- A path by which a file can be written ends with the name of the file. -/
theorem exists_eq_append_of_target (h : workspace.target path = .ok place)
    (hname : Path.fileName? path = some name) : ∃ directory, place = directory ++ [name] := by
  obtain ⟨-, hlocate, hplace⟩ := target_eq_ok_iff.1 h
  rw [locate] at hlocate
  split at hlocate
  · cases hlocate
  · rcases List.eq_nil_or_concat (Text.splitOn '/' path) with hnil | ⟨earlier, last, hpieces⟩
    · exact absurd (List.map_eq_nil_iff.1 hnil) (Text.splitChars_ne_nil _ _)
    · rw [List.concat_eq_append] at hpieces
      rw [hpieces, follow_append_eq_ok_iff] at hlocate
      obtain ⟨directory, -, hlast⟩ := hlocate
      rw [follow_cons_eq_ok_iff, follow, Except.ok.injEq] at hlast
      obtain ⟨hdirectory, rfl⟩ := hlast
      have hmeaning : last ≠ "" ∧ last ≠ "." := by
        -- else the place would be the directory
        rw [← not_or]
        intro hvoid
        rw [enter, if_pos hvoid] at hplace
        exact hplace hdirectory
      rw [Path.fileName?_of_splitOn hpieces hmeaning.1 hmeaning.2] at hname
      split at hname
      · cases hname
      · rename_i hparent
        cases hname
        refine ⟨directory, ?_⟩
        rw [enter, if_neg (not_or.2 hmeaning), if_neg hparent]

theorem write_eq {contents : Bytes} (h : workspace.target path = .ok place) :
    workspace.write path contents =
      .ok { workspace with tree := workspace.tree.write place contents } := by
  rw [Workspace.write, h]
  rfl

/-- A file is removed by the path by which it was written, if directories are the same. -/
theorem remove_eq {tree : FileTree} {contents : Bytes} (h : workspace.target path = .ok place)
    (hsame : workspace.tree.SameDirectories tree)
    (hfile : tree.node? place = some (.file contents)) :
    { workspace with tree }.remove path = { workspace with tree := tree.erase place } := by
  have hlocate := (locate_eq_ok_iff hsame).2 (target_eq_ok_iff.1 h).2.1
  have hfound : { workspace with tree }.file? path = some place :=
    file?_eq_some_iff.2 ⟨hlocate, contents, hfile⟩
  rw [remove, hfound]

/-- Nothing is in a place where a file can be written, if no file is. -/
theorem node?_eq_none (hfree : workspace.file? path = none)
    (htarget : workspace.target path = .ok place) : workspace.tree.node? place = none := by
  obtain ⟨-, hlocate, hplace⟩ := target_eq_ok_iff.1 htarget
  rcases hnode : workspace.tree.node? place with _ | _ | contents
  · rfl
  · exact absurd hnode hplace
  · rw [file?_eq_some_iff.2 ⟨hlocate, contents, hnode⟩] at hfree
    cases hfree

/-- No file is there where none was, unless it has been written there. -/
theorem file?_eq_none {tree : FileTree} (hfree : workspace.file? path = none)
    (hsame : workspace.tree.SameDirectories tree)
    (hkept : ∀ place, workspace.locate path = .ok place →
      tree.node? place = workspace.tree.node? place) :
    { workspace with tree }.file? path = none := by
  cases hfile : { workspace with tree }.file? path with
  | none => rfl
  | some place =>
      obtain ⟨hlocate, contents, hnode⟩ := file?_eq_some_iff.1 hfile
      have hlocate := (locate_eq_ok_iff hsame).1 hlocate
      rw [hkept place hlocate] at hnode
      rw [file?_eq_some_iff.2 ⟨hlocate, contents, hnode⟩] at hfree
      cases hfree

end Workspace

end PascalUnits
