import PascalUnits.Index.Basic
import PascalUnits.Proofs.NameTable
import PascalUnits.Proofs.Text.LetterCase

/-!
# Workspaces whose files differ in letter case

`Workspace.Alike` says that two workspaces have the same places, and that their files have the same
contents in lower case. Paths lead to the same places in both (`Alike.resolve`), a file that can be
read in one can be read in the other (`Alike.read`), and the same files are found below a directory
(`Alike.sourceFiles`).
-/

namespace PascalUnits

/-- What is found at a place, with the contents of a file in lower case. -/
def Node.lower : Node → Node
  | .directory => .directory
  | .file contents => .file (Bytes.lower contents)

/-- The contents of a file. -/
def Node.contents? : Node → Option Bytes
  | .directory => none
  | .file contents => some contents

/-- Two trees have the same places, and their files have the same contents in lower case. -/
def FileTree.Alike (tree other : FileTree) : Prop :=
  ∀ place : Location, other.nodes[place]?.map Node.lower = tree.nodes[place]?.map Node.lower

/-- Two workspaces have such trees, and relative paths begin in the same directory. -/
structure Workspace.Alike (workspace other : Workspace) : Prop where
  here_eq : other.here = workspace.here
  tree : workspace.tree.Alike other.tree

namespace FileTree

variable {tree other : FileTree}

theorem Alike.node? (h : tree.Alike other) (place : Location) :
    (other.node? place).map Node.lower = (tree.node? place).map Node.lower := by
  rw [FileTree.node?, FileTree.node?]
  split
  · rfl
  · exact h place

/-- The same files are found below a place. -/
theorem Alike.filesBelow (h : tree.Alike other) (base : Location) :
    other.filesBelow base = tree.filesBelow base := by
  have hfiles : ∀ tree : FileTree, tree.filesBelow base =
      (tree.nodes.toList.map fun entry => (entry.1, entry.2.lower)).filterMap fun entry =>
        entry.2.contents?.bind fun _ => base.isPrefixOf? entry.1 := by
    intro tree
    rw [FileTree.filesBelow, files, List.filterMap_filterMap, List.filterMap_map]
    refine List.filterMap_congr fun entry _ => ?_
    obtain ⟨place, node⟩ := entry
    cases node <;> rfl
  rw [hfiles, hfiles, map_toList_eq_of_map_getElem?_eq h]

end FileTree

namespace Workspace.Alike

variable {workspace other : Workspace} (h : workspace.Alike other)

include h

/-- Names lead to the same places. -/
theorem follow (place : Location) (names : List String) :
    Workspace.follow other.tree place names = Workspace.follow workspace.tree place names := by
  induction names generalizing place with
  | nil => rfl
  | cons name names ih =>
      have hnode := h.tree.node? place
      rw [Workspace.follow, Workspace.follow, ih, ih, ih]
      cases hfound : workspace.tree.node? place with
      | none =>
          rw [hfound, Option.map_none, Option.map_eq_none_iff] at hnode
          rw [hnode]
      | some node =>
          rw [hfound, Option.map_some, Option.map_eq_some_iff] at hnode
          obtain ⟨otherNode, hother, hlower⟩ := hnode
          rw [hother]
          cases node <;> cases otherNode <;> first | rfl | cases hlower

theorem locate (path : String) : other.locate path = workspace.locate path := by
  rw [Workspace.locate, Workspace.locate, h.here_eq, h.follow]

/-- Paths lead to the same places, and what is found there is the same in lower case. -/
theorem resolve (path : String) :
    (other.resolve path).map (Prod.map id Node.lower) =
      (workspace.resolve path).map (Prod.map id Node.lower) := by
  have hresolve : ∀ workspace : Workspace,
      (workspace.resolve path).map (Prod.map id Node.lower) =
        (workspace.locate path).bind fun place =>
          ((workspace.tree.node? place).map Node.lower).elim (.error .noSuchFile) fun node =>
            .ok (place, node) := by
    intro workspace
    rw [Workspace.resolve]
    cases workspace.locate path with
    | error fault => rfl
    | ok place =>
        cases hnode : workspace.tree.node? place <;>
          simp [hnode, Bind.bind, Except.bind, Except.map]
  rw [hresolve, hresolve, h.locate]
  simp only [h.tree.node?]

/-- Files that can be read have the same contents in lower case. -/
theorem read (path : String) :
    (other.read path).map Bytes.lower = (workspace.read path).map Bytes.lower := by
  have hread : ∀ workspace : Workspace, (workspace.read path).map Bytes.lower =
      ((workspace.resolve path).map (Prod.map id Node.lower)).bind fun found =>
        found.2.contents?.elim (.error .isADirectory) .ok := by
    intro workspace
    rw [Workspace.read]
    rcases workspace.resolve path with _ | ⟨place, _ | contents⟩ <;> rfl
  rw [hread, hread, h.resolve]

theorem directory? (path : String) : other.directory? path = workspace.directory? path := by
  have hdirectory : ∀ workspace : Workspace, workspace.directory? path =
      ((workspace.resolve path).map (Prod.map id Node.lower)).toOption.bind fun found =>
        found.2.contents?.elim (some found.1) fun _ => none := by
    intro workspace
    rw [Workspace.directory?]
    rcases workspace.resolve path with _ | ⟨place, _ | contents⟩ <;> rfl
  rw [hdirectory, hdirectory, h.resolve]

/-- The same source files are found below a directory. -/
theorem sourceFiles (settings : Settings) (path : String) (directory : Location) :
    Index.sourceFiles other settings path directory =
      Index.sourceFiles workspace settings path directory := by
  rw [Index.sourceFiles, Index.sourceFiles, Index.candidates, Index.candidates,
    h.tree.filesBelow]

end Workspace.Alike

end PascalUnits
