import Mathlib.Data.List.Induction
import PascalUnits.Proofs.Graph.Basic
import PascalUnits.Proofs.Index.Closure
import PascalUnits.Proofs.Index.Persistence

/-!
# Building on what is loaded

A build of an index in which units are loaded goes on from the units that it loads itself, and from
no others (`GoesOn`). So the uses of a unit that an action of its own has loaded (`LoadedAlone`) may
stay unloaded. The uses of all other loaded units are loaded (`settled_afterAll`). The main
statement, `build_loads_reached`, says which units are loaded after a build and when all that the
roots lead to are among them.
-/

namespace PascalUnits

namespace Index

/-- A build goes on from a unit to what the unit mentions, unless the unit is loaded already. -/
def GoesOn (workspace : Workspace) (index : Index) (key other : String) : Prop :=
  index.isLoaded key = false ∧ Mentions workspace index key other

/-- All recorded uses of a unit are loaded. -/
def Settled (index : Index) (unit : String) : Prop :=
  ∀ other, index.Uses unit other → index.isLoaded other

/-- The unit with the given key was loaded by an action of its own. -/
def LoadedAlone (index : Index) (actions : List (Workspace × Action)) (key : String) : Prop :=
  ∃ earlier workspace unit later, actions = earlier ++ (workspace, .load unit) :: later ∧
    (index.afterAll earlier).isLoaded unit = false ∧ UnitName.key unit = key

/-- Units are loaded by builds only. -/
def NoneAlone (actions : List (Workspace × Action)) : Prop :=
  ∀ action ∈ actions, ∀ unit, action.2 ≠ .load unit

/-- The state of an index `start` while it is built from `roots` and the units of `stack` wait. -/
structure Resumed (workspace : Workspace) (roots : List String) (start index : Index)
    (stack : List String) : Prop where
  mentions_eq : Mentions workspace index = Mentions workspace start
  /-- Units stay loaded, with the uses that are recorded of them. -/
  loaded_before : ∀ name, start.isLoaded name → index.isLoaded name
  uses_kept : ∀ name other, start.isLoaded name → (index.Uses name other ↔ start.Uses name other)
  /-- Other loaded units are needed, and so are those that wait. -/
  loaded_needed : ∀ name, index.isLoaded name →
    start.isLoaded name ∨ Needed (start.GoesOn workspace) roots (UnitName.key name)
  stack_needed : ∀ name ∈ stack, Needed (start.GoesOn workspace) roots (UnitName.key name)
  /-- Each root is loaded or waits. -/
  root_covered : ∀ root ∈ roots, Covered index stack (UnitName.key (UnitName.ofPath root))
  /-- Whatever a unit mentions that was not loaded before is loaded or waits. -/
  mention_covered : ∀ name other, start.isLoaded name = false → index.isLoaded name →
    Mentions workspace start (UnitName.key name) other → Covered index stack other
  uses_mentioned : ∀ name other, start.isLoaded name = false → index.Uses name other →
    Mentions workspace start (UnitName.key name) other

variable {workspace : Workspace} {start index : Index} {roots stack : List String}
  {unit name other : String}

/-- A unit with recorded uses is loaded. -/
theorem Uses.isLoaded (h : index.Uses name other) : index.isLoaded name := by
  obtain ⟨uses, huses, -⟩ := h
  rw [Index.isLoaded, NameTable.contains_eq_isSome_find?]
  exact Option.isSome_iff_exists.2 ⟨uses, huses⟩

/-- The uses of a unit are keys of names. -/
theorem Uses.key_eq (h : index.Uses name other) : UnitName.key other = other := by
  obtain ⟨uses, -, hother | hother⟩ := h
  all_goals
    obtain ⟨use, -, rfl⟩ := List.mem_map.1 hother
    exact UnitName.key_key use

/-- Loading a unit leaves alone what is recorded of those that are loaded. -/
theorem uses_load (h : index.isLoaded name) :
    (index.load workspace unit).value.1.Uses name other ↔ index.Uses name other := by
  have hother : ¬(index.isLoaded unit = false ∧ UnitName.key unit = UnitName.key name) := by
    rintro ⟨hunloaded, hsame⟩
    rw [isLoaded, index.uses.contains_congr hsame] at hunloaded
    exact Bool.false_ne_true (hunloaded.symm.trans h)
  rw [Uses, Uses, get?_load, if_neg hother]

/-- What loading records of a unit are units that it mentions. -/
theorem mentions_of_mem_usesOf {uses : UnitUses} (h : index.usesOf workspace unit = uses)
    (hother : other ∈ uses.interface.map UnitName.key ∨
      other ∈ uses.implementation.map UnitName.key) :
    Mentions workspace index (UnitName.key unit) other := by
  subst h
  cases hpath : index.unitPaths.find? unit with
  | none => simp [usesOf, hpath] at hother
  | some path =>
      simp only [usesOf, hpath] at hother
      rw [← mem_keys_reading hpath, Reading.mem_keys]
      exact hother.imp_right .inl

/-- So are the recorded uses of a unit that has just been loaded. -/
theorem mentions_of_uses_load (hunloaded : index.isLoaded name = false)
    (h : (index.load workspace unit).value.1.Uses name other) :
    Mentions workspace index (UnitName.key name) other := by
  obtain ⟨uses, huses, hother⟩ := h
  rw [get?_load] at huses
  split at huses
  · rename_i hnew
    rw [← hnew.2]
    exact mentions_of_mem_usesOf (Option.some.inj huses) hother
  · have hloaded : index.isLoaded name := Uses.isLoaded ⟨uses, huses, hother⟩
    exact absurd (hunloaded.symm.trans hloaded) Bool.false_ne_true

/-- A build begins with its roots on the stack. -/
theorem Resumed.begin (workspace : Workspace) (start : Index) (roots : List String) :
    Resumed workspace roots start
      { start with roots := start.roots ++ roots.map UnitName.ofPath }
      (roots.map UnitName.ofPath).reverse := by
  refine ⟨rfl, fun _ h => h, fun _ _ _ => Iff.rfl, fun _ h => .inl h, ?_, ?_, ?_, ?_⟩
  · intro name hname
    obtain ⟨root, hroot, rfl⟩ := List.mem_map.1 (List.mem_reverse.1 hname)
    exact .root hroot
  · intro root hroot
    refine .inr ?_
    rw [List.map_reverse, List.mem_reverse]
    exact List.mem_map_of_mem (List.mem_map_of_mem hroot)
  · intro name other hunloaded hloaded
    exact absurd (hunloaded.symm.trans hloaded) Bool.false_ne_true
  · intro name other hunloaded huses
    exact absurd (hunloaded.symm.trans huses.isLoaded) Bool.false_ne_true

/-- The invariant of the loop. -/
theorem Resumed.visit {rest : List String}
    (h : Resumed workspace roots start index (unit :: rest)) :
    Resumed workspace roots start (index.load workspace unit).value.1
      ((index.visit workspace unit).value.2.reverse ++ rest) := by
  have hunit := h.stack_needed unit List.mem_cons_self
  have hstart : ∀ name, index.isLoaded name = false → start.isLoaded name = false := by
    intro name hunloaded
    rw [← Bool.not_eq_true] at hunloaded ⊢
    exact fun hname => hunloaded (h.loaded_before name hname)
  refine ⟨?_, ?_, ?_, ?_, ?_, ?_, ?_, ?_⟩
  · rw [(load_frame workspace index unit).1, h.mentions_eq]
  · intro name hname
    rw [isLoaded_load, h.loaded_before name hname, Bool.or_true]
  · intro name other hname
    rw [uses_load (h.loaded_before name hname), h.uses_kept name other hname]
  · intro name hloaded
    rw [isLoaded_load, Bool.or_eq_true, beq_iff_eq] at hloaded
    rcases hloaded with hsame | hloaded
    · exact .inr (hsame ▸ hunit)
    · exact h.loaded_needed name hloaded
  · intro name hname
    rcases List.mem_append.1 hname with hvisited | hrest
    · obtain ⟨hunloaded, hmention, -⟩ :=
        mem_keys_visit.1 (List.mem_map_of_mem (List.mem_reverse.1 hvisited))
      rw [h.mentions_eq] at hmention
      refine .mention hunit ⟨?_, hmention⟩
      rw [isLoaded, NameTable.contains_key]
      exact hstart unit hunloaded
    · exact h.stack_needed name (List.mem_cons_of_mem unit hrest)
  · exact fun root hroot => covered_visit (h.root_covered root hroot)
  · intro name other hunloaded hloaded hmention
    cases hbefore : index.isLoaded name with
    | true => exact covered_visit (h.mention_covered name other hunloaded hbefore hmention)
    | false => exact covered_of_mentions hbefore hloaded (h.mentions_eq ▸ hmention)
  · intro name other hunloaded huses
    cases hbefore : index.isLoaded name with
    | true => exact h.uses_mentioned name other hunloaded ((uses_load hbefore).1 huses)
    | false => exact h.mentions_eq ▸ mentions_of_uses_load hbefore huses

/-- A build works through its roots and whatever it goes on to from them. -/
theorem resumed_build (workspace : Workspace) (start : Index) (roots : List String) :
    Resumed workspace roots start (start.build workspace roots).value [] := by
  rw [build_index]
  exact loadAll_rule (Resumed workspace roots start) (fun _ _ _ => Resumed.visit)
    (.begin workspace start roots)

/-- After a build those units are loaded that were before, and those that it goes on to. -/
theorem Resumed.isLoaded_iff (h : Resumed workspace roots start index []) (name : String) :
    index.isLoaded name ↔
      start.isLoaded name ∨ Needed (start.GoesOn workspace) roots (UnitName.key name) := by
  refine ⟨h.loaded_needed name, fun hname => hname.elim (h.loaded_before name) fun hneeded => ?_⟩
  rw [isLoaded, ← NameTable.contains_key]
  show index.isLoaded (UnitName.key name)
  generalize UnitName.key name = key at hneeded
  induction hneeded with
  | root hroot => exact (h.root_covered _ hroot).isLoaded
  | @mention key other hneeded hmention ih =>
      have hkey := hneeded.key_eq fun _ _ hmention => hmention.2.key_eq
      exact (h.mention_covered _ _ hmention.1 ih (hkey.symm ▸ hmention.2)).isLoaded

/-- The uses of a unit that a build has loaded are loaded. -/
theorem Resumed.settled (h : Resumed workspace roots start index [])
    (hunloaded : start.isLoaded name = false) : index.Settled name := by
  intro other huses
  have hmention := h.uses_mentioned name other hunloaded huses
  exact (h.mention_covered name other hunloaded huses.isLoaded hmention).isLoaded

/-- An action leaves alone what is recorded of loaded units, and these stay loaded. -/
theorem Settled.after (h : index.Settled name) (hloaded : index.isLoaded name)
    (workspace : Workspace) (action : Action) : (index.after workspace action).Settled name := by
  intro other huses
  cases action with
  | addUnitPath path => exact h other huses
  | addIncludePath path => exact h other huses
  | addDirectory path =>
      have hsame := (uses_addDirectory workspace index path).1
      simp only [Uses, get?, isLoaded, hsame] at huses ⊢
      exact h other huses
  | setInterfaceOnly interfaceOnly => exact h other huses
  | load unit =>
      simp only [Index.after] at huses ⊢
      rw [isLoaded_load, h other ((uses_load hloaded).1 huses), Bool.or_true]
  | build roots =>
      have hbuild := resumed_build workspace index roots
      exact hbuild.loaded_before _ (h other ((hbuild.uses_kept name other hloaded).1 huses))

/-- A unit that an action loads is settled, unless it is loaded alone. -/
theorem settled_after (workspace : Workspace) (action : Action)
    (hunloaded : index.isLoaded name = false)
    (hloaded : (index.after workspace action).isLoaded name) :
    (index.after workspace action).Settled name ∨
      ∃ unit, action = .load unit ∧ UnitName.key unit = UnitName.key name := by
  have hsame : ∀ later : Index, later.uses = index.uses → ¬ later.isLoaded name := by
    intro later huses
    rw [isLoaded, huses]
    exact fun hname => Bool.false_ne_true (hunloaded.symm.trans hname)
  cases action with
  | addUnitPath path => exact absurd hloaded (hsame _ rfl)
  | addIncludePath path => exact absurd hloaded (hsame _ rfl)
  | addDirectory path => exact absurd hloaded (hsame _ (uses_addDirectory workspace index path).1)
  | setInterfaceOnly interfaceOnly => exact absurd hloaded (hsame _ rfl)
  | load unit => exact .inr ⟨unit, rfl, (key_eq_of_isLoaded_load hunloaded hloaded).2⟩
  | build roots => exact .inl ((resumed_build workspace index roots).settled hunloaded)

/-- A unit that was loaded by an action of its own was so when more has been done. -/
theorem LoadedAlone.append {actions : List (Workspace × Action)} {key : String}
    (h : index.LoadedAlone actions key) (more : List (Workspace × Action)) :
    index.LoadedAlone (actions ++ more) key := by
  obtain ⟨earlier, workspace, unit, later, rfl, hunloaded, hkey⟩ := h
  exact ⟨earlier, workspace, unit, later ++ more, by simp, hunloaded, hkey⟩

/-- Whatever is done with an index without loaded units, the units are settled that are not loaded
alone. -/
theorem settled_afterAll (hfresh : index.uses = .empty) (actions : List (Workspace × Action)) :
    ∀ name, (index.afterAll actions).isLoaded name →
      (index.afterAll actions).Settled name ∨ index.LoadedAlone actions (UnitName.key name) := by
  -- from the last action, because `LoadedAlone` speaks of what was done before a load
  induction actions using List.reverseRecOn with
  | nil =>
      intro name hloaded
      rw [afterAll, List.foldl_nil, isLoaded, hfresh, NameTable.contains_empty] at hloaded
      cases hloaded
  | append_singleton earlier action ih =>
      intro name
      have hstep : index.afterAll (earlier ++ [action]) =
          (index.afterAll earlier).after action.1 action.2 := by
        rw [afterAll, List.foldl_append]
        rfl
      rw [hstep]
      intro hloaded
      cases hbefore : (index.afterAll earlier).isLoaded name with
      | true =>
          rcases ih name hbefore with hsettled | halone
          · exact .inl (hsettled.after hbefore action.1 action.2)
          · exact .inr (halone.append [action])
      | false =>
          refine (settled_after action.1 action.2 hbefore hloaded).imp_right ?_
          rintro ⟨unit, haction, hkey⟩
          refine ⟨earlier, action.1, unit, [], by rw [← haction], ?_, hkey⟩
          rw [isLoaded, NameTable.contains_congr _ hkey]
          exact hbefore

/-- Where units are loaded by builds only, all that loaded units use is loaded. -/
theorem NoneAlone.settled {actions : List (Workspace × Action)} (h : NoneAlone actions)
    (hfresh : index.uses = .empty) (huses : (index.afterAll actions).Uses name other) :
    (index.afterAll actions).isLoaded other := by
  rcases settled_afterAll hfresh actions name huses.isLoaded with hsettled | halone
  · exact hsettled other huses
  · obtain ⟨_, workspace, unit, _, rfl, -, -⟩ := halone
    exact absurd rfl (h (workspace, .load unit) (by simp) unit)

end Index

open Index in
/-- What a build loads, whatever was done before. To the loaded units it adds its roots, and goes on
from those units that it loads itself. All units that the roots lead to through recorded uses are
loaded then exactly when the uses are loaded of those among them that were loaded by an action of
their own, either before the build or by it on the way from its roots. -/
theorem build_loads_reached (settings : Settings) (actions : List (Workspace × Action))
    (workspace : Workspace) (roots : List String) :
    let index := Index.afterAll { settings } actions
    let built := (index.build workspace roots).value
    let visited := Needed (index.GoesOn workspace) roots
    (∀ name, built.isLoaded name ↔ index.isLoaded name ∨ visited (UnitName.key name)) ∧
    ((∀ key, Needed built.Uses roots key → built.isLoaded key) ↔
      ∀ key other, LoadedAlone { settings } actions key → Needed built.Uses roots key →
        index.Uses key other → index.isLoaded other ∨ visited other) := by
  intro index built visited
  have hbuild : Resumed workspace roots index built [] := resumed_build workspace index roots
  refine ⟨hbuild.isLoaded_iff, fun hreached key other _ hkey huses => ?_,
    fun halone key hkey => ?_⟩
  · have hbuilt : built.Uses key other := (hbuild.uses_kept key other huses.isLoaded).2 huses
    have hother := (hbuild.isLoaded_iff other).1 (hreached other (.mention hkey hbuilt))
    rwa [huses.key_eq] at hother
  · induction hkey with
    | @root root hroot => exact (hbuild.root_covered root hroot).isLoaded
    | @mention key other hkey huses ih =>
        cases hbefore : index.isLoaded key with
        | false => exact hbuild.settled hbefore other huses
        | true =>
            have hrecorded : index.Uses key other := (hbuild.uses_kept key other hbefore).1 huses
            -- the build does not go on from this unit, so its uses must be loaded another way
            rcases settled_afterAll rfl actions key hbefore with hsettled | hkeyAlone
            · exact hbuild.loaded_before other (hsettled other hrecorded)
            · rw [hkey.key_eq fun _ _ => Uses.key_eq] at hkeyAlone
              have hother := halone key other hkeyAlone hkey hrecorded
              refine (hbuild.isLoaded_iff other).2 ?_
              rwa [huses.key_eq]

open Index in
/-- A unit that was loaded before the build, for instance. Its use stays unloaded. -/
theorem build_leaves_use_unloaded :
    let workspace : Workspace :=
      { tree := (FileTree.empty.write ["A.pas"]
            (Bytes.ofText "unit A;\ninterface\nuses B;\nimplementation\nend.")).write
          ["B.pas"] (Bytes.ofText "unit B; end.")
        here := [], systemScratch := "/tmp", run := "1" }
    let index := Index.afterAll {} [(workspace, .addUnitPath "A.pas"),
      (workspace, .addUnitPath "B.pas"), (workspace, .load "A")]
    let built := (index.build workspace ["A"]).value
    Needed built.Uses ["A"] "b" ∧ built.isLoaded "b" = false := by
  intro workspace index built
  have hbuilt : built = _ := value_build_of_turns workspace index ["A"] 1 (by decide +kernel)
  have huses : built.get? "a" = some { unit := "A", interface := ["B"] } := by
    rw [hbuilt]
    decide +kernel
  have hroot : Needed built.Uses ["A"] "a" := by
    have hkey : UnitName.key (UnitName.ofPath "A") = "a" := by decide +kernel
    exact hkey ▸ .root List.mem_cons_self
  refine ⟨.mention hroot ⟨_, huses, .inl (by decide +kernel)⟩, ?_⟩
  rw [hbuilt]
  decide +kernel

end PascalUnits
