import PascalUnits.Proofs.Graph.Chains
import PascalUnits.Proofs.Index.Resumption

/-!
# Why loaded units are there

Every loaded unit has an explanation, if units are loaded by builds only and all uses are recorded:
a chain leads to it from a root. `Explained` is what a build preserves. Whatever is loaded or waits
can be reached from a root by recorded uses (`Explained.after`), and where there is a way there is a
chain on which no unit comes twice (`RootChain.exists_of_reflTransGen`). The main statement is
`loaded_units_are_explained`.
-/

namespace PascalUnits

open Relation

namespace RootChain

variable {uses : String → String → Prop} {isRoot : String → Prop} {root target unit : String}
  {chain : List String}

/-- Up to any of its units a chain is a chain to that unit. -/
theorem exists_of_mem (h : RootChain uses isRoot target chain) (hunit : unit ∈ chain) :
    ∃ front, RootChain uses isRoot unit front := by
  obtain ⟨before, after, rfl⟩ := List.append_of_mem hunit
  rw [List.append_cons] at h
  obtain ⟨hnodup, -, -⟩ := List.nodup_append.1 h.nodup
  obtain ⟨hlinked, -, -⟩ := List.isChain_append.1 h.linked
  obtain ⟨first, hfirst, hisRoot⟩ := h.root
  refine ⟨before ++ [unit], List.getLast?_concat, ⟨first, ?_, hisRoot⟩, ?_, hlinked, hnodup⟩
  · rwa [List.head?_append_of_ne_nil _ (by simp)] at hfirst
  · intro inner hinner
    refine h.inner inner ?_
    rw [List.tail_append_of_ne_nil (by simp)]
    exact List.mem_append_left after hinner

/-- Where there is a way from a root there is a chain. -/
theorem exists_of_reflTransGen (hroot : isRoot root) (h : ReflTransGen uses root target) :
    ∃ chain, RootChain uses isRoot target chain := by
  induction h with
  | refl => exact ⟨[root], (of_root hroot).2 rfl⟩
  | @tail source target _ huse ih =>
      obtain ⟨front, hfront⟩ := ih
      by_cases htarget : isRoot target
      · exact ⟨[target], (of_root htarget).2 rfl⟩
      · by_cases hmem : target ∈ front
        · -- the way comes back to a unit of the chain, which ends there already
          exact hfront.exists_of_mem hmem
        · exact ⟨front ++ [target],
            (of_not_root htarget).2 ⟨source, front, huse, hfront, hmem, rfl⟩⟩

end RootChain

namespace Index

variable {workspace : Workspace} {index : Index} {stack : List String} {unit name key : String}

/-- Recorded uses lead from a root to the unit with the given key. -/
def FromRoot (index : Index) (key : String) : Prop :=
  ∃ root ∈ index.roots, ReflTransGen index.Uses (UnitName.key root) key

/-- All uses are recorded, and whatever is loaded or waits is reached from a root. -/
structure Explained (index : Index) (stack : List String) : Prop where
  recording : index.interfaceOnly = false
  loaded : ∀ name, index.isLoaded name → index.FromRoot (UnitName.key name)
  waiting : ∀ name ∈ stack, index.FromRoot (UnitName.key name)

/-- Loading leaves alone which uses are recorded, and what the roots are. -/
theorem frame_load (workspace : Workspace) (index : Index) (unit : String) :
    (index.load workspace unit).value.1.interfaceOnly = index.interfaceOnly ∧
      (index.load workspace unit).value.1.roots = index.roots := by
  rw [load_index]
  split <;> exact ⟨rfl, rfl⟩

/-- What is reached from a root is reached when more is loaded. -/
theorem FromRoot.load (h : index.FromRoot key) (unit : String) :
    (index.load workspace unit).value.1.FromRoot key := by
  obtain ⟨root, hroot, hway⟩ := h
  refine ⟨root, (frame_load workspace index unit).2 ▸ hroot, ReflTransGen.mono ?_ _ _ hway⟩
  exact fun source other huse => (uses_load huse.isLoaded).2 huse

/-- Where all uses are recorded a unit leads to what is recorded for it. -/
theorem mem_usesOf_of_followed (hrecording : index.interfaceOnly = false)
    (hname : name ∈ index.followed workspace unit) :
    name ∈ (index.usesOf workspace unit).interface ∨
      name ∈ (index.usesOf workspace unit).implementation := by
  unfold followed at hname
  unfold usesOf
  cases hpath : index.unitPaths.find? unit with
  | none => simp [hpath] at hname
  | some path =>
      rw [hpath] at hname
      obtain ⟨-, hboth, -⟩ :=
        index.lists_counted unit (index.sourceFindings workspace unit path)
      simpa [Reading.following, UnitUses.edges, (hboth hrecording).2] using hname

/-- A visit leads to units that are recorded as used by the visited one. -/
theorem uses_of_mem_visit (hrecording : index.interfaceOnly = false)
    (hname : name ∈ (index.visit workspace unit).value.2) :
    (index.load workspace unit).value.1.Uses (UnitName.key unit) (UnitName.key name) := by
  rw [visit_names] at hname
  split at hname
  · cases hname
  · rename_i hunloaded
    have hfollowed := mem_usesOf_of_followed hrecording (List.mem_of_mem_filter hname)
    refine ⟨index.usesOf workspace unit, ?_, ?_⟩
    · rw [get?_load, if_pos ⟨Bool.not_eq_true _ ▸ hunloaded, (UnitName.key_key unit).symm⟩]
    · exact hfollowed.imp List.mem_map_of_mem List.mem_map_of_mem

/-- The invariant of the loop. -/
theorem Explained.visit {rest : List String} (h : index.Explained (unit :: rest)) :
    (index.load workspace unit).value.1.Explained
      ((index.visit workspace unit).value.2.reverse ++ rest) := by
  have hunit : (index.load workspace unit).value.1.FromRoot (UnitName.key unit) :=
    (h.waiting unit List.mem_cons_self).load unit
  refine ⟨(frame_load workspace index unit).1.trans h.recording, ?_, ?_⟩
  · intro name hloaded
    rw [isLoaded_load, Bool.or_eq_true, beq_iff_eq] at hloaded
    rcases hloaded with hsame | hloaded
    · exact hsame ▸ hunit
    · exact (h.loaded name hloaded).load unit
  · intro name hname
    rcases List.mem_append.1 hname with hvisited | hrest
    · obtain ⟨root, hroot, hway⟩ := hunit
      have huse := uses_of_mem_visit h.recording (List.mem_reverse.1 hvisited)
      exact ⟨root, hroot, hway.tail huse⟩
    · exact (h.waiting name (List.mem_cons_of_mem unit hrest)).load unit

/-- A build begins with the further roots on the stack. -/
theorem Explained.begin (h : index.Explained []) (roots : List String) :
    Explained { index with roots := index.roots ++ roots.map UnitName.ofPath }
      (roots.map UnitName.ofPath).reverse := by
  refine ⟨h.recording, fun name hloaded => ?_, fun name hname => ?_⟩
  · obtain ⟨root, hroot, hway⟩ := h.loaded name hloaded
    exact ⟨root, List.mem_append_left _ hroot, hway⟩
  · exact ⟨name, List.mem_append_right _ (List.mem_reverse.1 hname), .refl⟩

/-- So do actions, if none loads a unit by itself or leaves uses out. -/
theorem Explained.after (h : index.Explained []) (workspace : Workspace) (action : Action)
    (hbuilds : ∀ unit, action ≠ .load unit) (hrecording : action ≠ .setInterfaceOnly true) :
    (index.after workspace action).Explained [] := by
  cases action with
  | addUnitPath path => exact ⟨h.recording, h.loaded, h.waiting⟩
  | addIncludePath path => exact ⟨h.recording, h.loaded, h.waiting⟩
  | addDirectory path =>
      obtain ⟨_, _, hindex⟩ := exists_addDirectory_eq workspace index path
      rw [hindex]
      exact ⟨h.recording, h.loaded, h.waiting⟩
  | setInterfaceOnly interfaceOnly =>
      cases interfaceOnly with
      | false => exact ⟨rfl, h.loaded, h.waiting⟩
      | true => exact absurd rfl hrecording
  | load unit => exact absurd rfl (hbuilds unit)
  | build roots =>
      simp only [Index.after, build_index]
      exact loadAll_rule Explained (fun _ _ _ => Explained.visit) (h.begin roots)

/-- So do any number of them. -/
theorem Explained.afterAll (h : index.Explained []) {actions : List (Workspace × Action)}
    (hbuilds : NoneAlone actions)
    (hrecording : ∀ action ∈ actions, action.2 ≠ .setInterfaceOnly true) :
    (index.afterAll actions).Explained [] := by
  induction actions generalizing index with
  | nil => exact h
  | cons action rest ih =>
      obtain ⟨hfirst, hrest⟩ := List.forall_mem_cons.1 hbuilds
      obtain ⟨hfirstRecording, hrestRecording⟩ := List.forall_mem_cons.1 hrecording
      exact ih (h.after action.1 action.2 hfirst hfirstRecording) hrest hrestRecording

end Index

namespace UsesGraph

variable {index : Index}

/-- Where all that loaded units use is loaded, the graph has no other units. -/
theorem units_eq_of_settled (hkeyed : index.Keyed)
    (hsettled : ∀ name other, index.Uses name other → index.isLoaded other) :
    (ofIndex index).units = index.uses.values.map (·.unit) := by
  obtain ⟨more, hunits⟩ := exists_units_eq_append hkeyed
  have hkeys : (ofIndex index).keys = index.uses.keys ++ more.map UnitName.key := by
    rw [keys, hunits, List.map_append, map_key_units hkeyed]
  cases more with
  | nil => rwa [List.append_nil] at hunits
  | cons unit rest =>
      -- the unit would be loaded, and so be among the nodes twice
      have hnode : UnitName.key unit ∈ (ofIndex index).keys := by
        rw [hkeys]
        simp
      have hlisted : UnitName.key unit ∈ index.uses.keys := by
        rcases (mem_keys_iff hkeyed).1 hnode with hloaded | ⟨source, -, huse⟩
        · exact hloaded
        · rw [hkeyed.mem_keys_iff]
          exact ⟨UnitName.key_key unit, hsettled source _ huse⟩
      have hnodup := nodup_keys index
      rw [hkeys] at hnodup
      exact absurd rfl ((List.nodup_append.1 hnodup).2.2 _ hlisted _ (by simp))

end UsesGraph

open UsesGraph

/-- Every loaded unit has an explanation. Let whatever be done with an index that records all uses,
in surroundings that may change between any two actions, except that no action loads a unit by
itself and none leaves uses out. Then the nodes of the graph are the loaded units, by names and by
keys, and some chain from a root leads to each of them. -/
theorem loaded_units_are_explained (settings : Settings) {actions : List (Workspace × Action)}
    (hbuilds : ∀ action ∈ actions, ∀ unit, action.2 ≠ .load unit)
    (hrecording : ∀ action ∈ actions, action.2 ≠ .setInterfaceOnly true) :
    let index := Index.afterAll { settings, interfaceOnly := false } actions
    (ofIndex index).units = index.uses.values.map (·.unit) ∧
    (ofIndex index).keys = index.uses.keys ∧
    ∀ unit, index.isLoaded unit → (ofIndex index).why unit ≠ [] := by
  intro index
  have hreached : index.Reached := by
    have hfresh := (Index.Reached.fresh settings).after
      { tree := .empty, here := [], systemScratch := "", run := "" } (.setInterfaceOnly false)
    exact hfresh.afterAll actions
  obtain ⟨hkeyed, hroots⟩ := hreached.keyed_and_rootsLoaded
  have hunits : (ofIndex index).units = index.uses.values.map (·.unit) :=
    units_eq_of_settled hkeyed fun _ _ => Index.NoneAlone.settled hbuilds rfl
  refine ⟨hunits, by rw [keys, hunits, map_key_units hkeyed], fun unit hloaded => ?_⟩
  have hfresh : Index.Explained { settings, interfaceOnly := false } [] :=
    ⟨rfl, fun name hname => by simp [Index.isLoaded] at hname,
      fun name hname => absurd hname List.not_mem_nil⟩
  obtain ⟨root, hroot, hway⟩ := (hfresh.afterAll hbuilds hrecording).loaded unit hloaded
  obtain ⟨chain, hchain⟩ : ∃ chain, index.IsRootChain (UnitName.key unit) chain :=
    RootChain.exists_of_reflTransGen ⟨root, hroot, rfl⟩ hway
  have hlisted := (mem_chains_ofIndex hkeyed hroots).2 hchain
  rw [← byKeys_why] at hlisted
  intro hnone
  rw [hnone] at hlisted
  cases hlisted

/-- A unit whose source is gone at the second build, for instance. -/
theorem explained_when_source_is_gone :
    let workspace : Workspace :=
      { tree := FileTree.empty.write ["m.pas"] [66], here := []
        systemScratch := "/tmp", run := "1" }
    let later : Workspace := { workspace with tree := .empty }
    let actions : List (Workspace × Action) := [(workspace, .addUnitPath "m.pas"),
      (workspace, .addUnitPath "b.pas"), (workspace, .build ["m"]), (later, .build ["m"])]
    let index := Index.afterAll {} actions
    (∀ action ∈ actions, ∀ unit, action.2 ≠ .load unit) ∧
    (∀ action ∈ actions, action.2 ≠ .setInterfaceOnly true) ∧
    index.isLoaded "b" ∧ (ofIndex index).why "b" ≠ [] := by
  intro workspace later actions index
  have hbuilds : ∀ action ∈ actions, ∀ unit, action.2 ≠ .load unit := by
    simp [actions]
  have hrecording : ∀ action ∈ actions, action.2 ≠ .setInterfaceOnly true := by
    simp [actions]
  let registered : Index :=
    { unitPaths := (NameTable.empty.insert "m" "m.pas").insert "b" "b.pas" }
  have hindex : index =
      (registered.after workspace (.build ["m"])).after later (.build ["m"]) := by
    simp only [registered, ← Index.after_two_units workspace]
    rfl
  have hbuilt : (registered.build workspace ["m"]).value.isLoaded "b" := by
    rw [Index.value_build_of_turns workspace registered ["m"] 2 (by decide +kernel)]
    decide +kernel
  have hloaded : index.isLoaded "b" := by
    rw [hindex]
    exact Index.isLoaded_loadAll hbuilt
  exact ⟨hbuilds, hrecording, hloaded,
    (loaded_units_are_explained {} hbuilds hrecording).2.2 "b" hloaded⟩

end PascalUnits
