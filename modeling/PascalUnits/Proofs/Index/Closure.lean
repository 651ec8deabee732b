import PascalUnits.Proofs.Index.Load

/-!
# Building loads what is needed

`Needed` is the least set of keys that contains the roots and whatever a member mentions. The main
statement, `build_loads_needed`, says that builds of an index without loaded units load the needed
units and no others, and that what they record depends neither on the order of the roots nor on how
they are divided among the builds. The loop invariant is `Pending`: all that is loaded or waits on
the stack is needed, and all that is needed next is loaded or waits.
-/

namespace PascalUnits

/-- The least set of keys that contains the keys of the units that the roots name, and whatever a
member mentions. -/
inductive Needed (mentions : String → String → Prop) (roots : List String) : String → Prop where
  | root {root : String} : root ∈ roots →
      Needed mentions roots (UnitName.key (UnitName.ofPath root))
  | mention {key other : String} : Needed mentions roots key → mentions key other →
      Needed mentions roots other

/-- More roots need more. -/
theorem Needed.mono {mentions : String → String → Prop} {roots more : List String} {key : String}
    (hroots : ∀ root ∈ roots, root ∈ more) (h : Needed mentions roots key) :
    Needed mentions more key := by
  induction h with
  | root hroot => exact .root (hroots _ hroot)
  | mention _ hmention ih => exact .mention ih hmention

/-- Needed keys are keys of names, if what is mentioned are such. -/
theorem Needed.key_eq {mentions : String → String → Prop} {roots : List String} {key : String}
    (hkey : ∀ key other, mentions key other → UnitName.key other = other)
    (h : Needed mentions roots key) : UnitName.key key = key := by
  cases h with
  | root _ => exact UnitName.key_key _
  | mention _ hmention => exact hkey _ _ hmention

/-- What a unit mentions are keys of names. -/
theorem Mentions.key_eq {workspace : Workspace} {index : Index} {key other : String}
    (h : Mentions workspace index key other) : UnitName.key other = other := by
  obtain ⟨_, name, _, _, _, rfl, _⟩ := h
  exact UnitName.key_key name

namespace Index

/-- The index after builds from the given roots, one build after the other. -/
def buildAll (workspace : Workspace) (index : Index) (calls : List (List String)) : Index :=
  calls.foldl (fun index roots => (index.build workspace roots).value) index

/-- The unit with the given key is loaded or waits on the stack. -/
def Covered (index : Index) (stack : List String) (key : String) : Prop :=
  index.isLoaded key ∨ key ∈ stack.map UnitName.key

/-- The state of an index while it is built from `roots` and the units of `stack` wait. -/
structure Pending (workspace : Workspace) (roots : List String) (index : Index)
    (stack : List String) : Prop where
  /-- Loaded units are needed. -/
  loaded_needed : ∀ name, index.isLoaded name →
    Needed (Mentions workspace index) roots (UnitName.key name)
  /-- Waiting units are needed. -/
  stack_needed : ∀ name ∈ stack, Needed (Mentions workspace index) roots (UnitName.key name)
  /-- Each root is loaded or waits. -/
  root_covered : ∀ root ∈ roots, Covered index stack (UnitName.key (UnitName.ofPath root))
  /-- Whatever a loaded unit mentions is loaded or waits. -/
  mention_covered : ∀ name other, index.isLoaded name →
    Mentions workspace index (UnitName.key name) other → Covered index stack other
  /-- What is known of a loaded unit is what loading it by its key would record. -/
  recorded : ∀ name uses, index.get? name = some uses →
    lists uses = lists (index.usesOf workspace (UnitName.key name))

variable {workspace : Workspace} {index : Index} {roots stack : List String}

/-- When nothing waits, what is covered is loaded. -/
theorem Covered.isLoaded {key : String} (h : Covered index [] key) : index.isLoaded key :=
  h.resolve_right nofun

/-- What waits or is loaded before a visit waits or is loaded after it. -/
theorem covered_visit {unit key : String} {rest : List String}
    (h : Covered index (unit :: rest) key) :
    Covered (index.load workspace unit).value.1
      ((index.visit workspace unit).value.2.reverse ++ rest) key := by
  rw [Covered, isLoaded_load]
  rcases h with hloaded | hwaits
  · exact .inl (by rw [hloaded, Bool.or_true])
  · rw [List.map_cons, List.mem_cons] at hwaits
    rcases hwaits with rfl | hrest
    · exact .inl (by simp)
    · exact .inr (by rw [List.map_append]; exact List.mem_append_right _ hrest)

/-- Whatever a unit mentions waits or is loaded after the visit that loads the unit. -/
theorem covered_of_mentions {unit name other : String} {rest : List String}
    (hbefore : index.isLoaded name = false)
    (hafter : (index.load workspace unit).value.1.isLoaded name)
    (hmention : Mentions workspace index (UnitName.key name) other) :
    Covered (index.load workspace unit).value.1
      ((index.visit workspace unit).value.2.reverse ++ rest) other := by
  obtain ⟨hunloaded, hsame⟩ := key_eq_of_isLoaded_load hbefore hafter
  by_cases hother : (index.load workspace unit).value.1.isLoaded other
  · exact .inl hother
  · refine .inr ?_
    rw [List.map_append, List.map_reverse]
    refine List.mem_append_left _ (List.mem_reverse.2 (mem_keys_visit.2 ?_))
    exact ⟨hunloaded, hsame ▸ hmention, Bool.not_eq_true _ ▸ hother⟩

/-- Loading leaves alone where the sources are: units mention what they did, and loading would
record what it would have. -/
theorem load_frame (workspace : Workspace) (index : Index) (unit : String) :
    Mentions workspace (index.load workspace unit).value.1 = Mentions workspace index ∧
      usesOf workspace (index.load workspace unit).value.1 = usesOf workspace index := by
  rw [load_index]
  split <;> exact ⟨rfl, rfl⟩

/-- The invariant of the loop. -/
theorem Pending.visit {unit : String} {rest : List String}
    (h : Pending workspace roots index (unit :: rest)) :
    Pending workspace roots (index.load workspace unit).value.1
      ((index.visit workspace unit).value.2.reverse ++ rest) := by
  obtain ⟨hmentions, huses⟩ := load_frame workspace index unit
  have hunit := h.stack_needed unit List.mem_cons_self
  refine ⟨?_, ?_, ?_, ?_, ?_⟩
  · intro name hloaded
    rw [isLoaded_load, Bool.or_eq_true, beq_iff_eq] at hloaded
    rw [hmentions]
    rcases hloaded with hsame | hloaded
    · rw [← hsame]
      exact hunit
    · exact h.loaded_needed name hloaded
  · intro name hname
    rw [hmentions]
    rcases List.mem_append.1 hname with hvisited | hrest
    · obtain ⟨-, hmention, -⟩ :=
        mem_keys_visit.1 (List.mem_map_of_mem (List.mem_reverse.1 hvisited))
      exact .mention hunit hmention
    · exact h.stack_needed name (List.mem_cons_of_mem unit hrest)
  · exact fun root hroot => covered_visit (h.root_covered root hroot)
  · intro name other hloaded hmention
    rw [hmentions] at hmention
    cases hbefore : index.isLoaded name with
    | true => exact covered_visit (h.mention_covered name other hbefore hmention)
    | false => exact covered_of_mentions hbefore hloaded hmention
  · intro name uses hname
    rw [huses]
    rw [get?_load] at hname
    split at hname
    · rename_i hsame
      cases hname
      exact lists_usesOf_congr (by rw [UnitName.key_key, hsame.2])
    · exact h.recorded name uses hname

/-- Nothing waits in an index without loaded units. -/
theorem Pending.fresh (h : index.uses = .empty) : Pending workspace [] index [] := by
  have hunloaded : ∀ name, index.isLoaded name = false := by
    intro name
    rw [isLoaded, h, NameTable.contains_empty]
  refine ⟨?_, ?_, ?_, ?_, ?_⟩
  · intro name hloaded
    rw [hunloaded] at hloaded
    cases hloaded
  · intro name hname
    cases hname
  · intro root hroot
    cases hroot
  · intro name other hloaded
    rw [hunloaded] at hloaded
    cases hloaded
  · intro name uses hname
    rw [get?, h, NameTable.find?_empty] at hname
    cases hname

/-- A build begins with the further roots on the stack. -/
theorem Pending.begin (h : Pending workspace roots index []) (more : List String) :
    Pending workspace (roots ++ more)
      { index with roots := index.roots ++ more.map UnitName.ofPath }
      (more.map UnitName.ofPath).reverse := by
  have hmono : ∀ key, Needed (Mentions workspace index) roots key →
      Needed (Mentions workspace index) (roots ++ more) key := fun key =>
    Needed.mono fun root hroot => List.mem_append_left more hroot
  refine ⟨?_, ?_, ?_, ?_, h.recorded⟩
  · exact fun name hname => hmono _ (h.loaded_needed name hname)
  · intro name hname
    obtain ⟨root, hroot, rfl⟩ := List.mem_map.1 (List.mem_reverse.1 hname)
    exact .root (List.mem_append_right roots hroot)
  · intro root hroot
    rcases List.mem_append.1 hroot with hbefore | hmore
    · exact .inl (h.root_covered root hbefore).isLoaded
    · refine .inr ?_
      rw [List.map_reverse, List.mem_reverse]
      exact List.mem_map_of_mem (List.mem_map_of_mem hmore)
  · intro name other hname hmention
    exact .inl (h.mention_covered name other hname hmention).isLoaded

/-- A build works through its roots and whatever they need. -/
theorem Pending.build (h : Pending workspace roots index []) (more : List String) :
    Pending workspace (roots ++ more) (index.build workspace more).value [] := by
  rw [build_index]
  exact loadAll_rule (Pending workspace (roots ++ more)) (fun _ _ _ => Pending.visit) (h.begin more)

/-- After a sequence of builds nothing waits. -/
theorem Pending.buildAll (h : Pending workspace roots index []) (calls : List (List String)) :
    Pending workspace (roots ++ calls.flatten) (index.buildAll workspace calls) [] := by
  induction calls generalizing roots index with
  | nil =>
      rw [List.flatten_nil, List.append_nil]
      exact h
  | cons more rest ih =>
      rw [List.flatten_cons, ← List.append_assoc]
      exact ih (h.build more)

/-- Builds leave alone where the sources are. -/
theorem buildAll_frame (workspace : Workspace) (index : Index) (calls : List (List String)) :
    Mentions workspace (index.buildAll workspace calls) = Mentions workspace index ∧
      usesOf workspace (index.buildAll workspace calls) = usesOf workspace index := by
  induction calls generalizing index with
  | nil => exact ⟨rfl, rfl⟩
  | cons roots rest ih =>
      have hbuild : Mentions workspace (index.build workspace roots).value =
          Mentions workspace index ∧
            usesOf workspace (index.build workspace roots).value = usesOf workspace index := by
        rw [build_index, loadAll_index]
        exact ⟨rfl, rfl⟩
      obtain ⟨hmentions, huses⟩ := ih (index.build workspace roots).value
      exact ⟨hmentions.trans hbuild.1, huses.trans hbuild.2⟩

/-- When nothing waits, the loaded units are the needed ones. -/
theorem Pending.isLoaded_iff (h : Pending workspace roots index []) (name : String) :
    index.isLoaded name ↔ Needed (Mentions workspace index) roots (UnitName.key name) := by
  refine ⟨h.loaded_needed name, fun hneeded => ?_⟩
  rw [isLoaded, ← NameTable.contains_key]
  show index.isLoaded (UnitName.key name)
  generalize UnitName.key name = key at hneeded
  induction hneeded with
  | root hroot => exact (h.root_covered _ hroot).isLoaded
  | mention hneeded hmention ih =>
      have hkey := hneeded.key_eq fun _ _ => Mentions.key_eq
      exact (h.mention_covered _ _ ih (hkey.symm ▸ hmention)).isLoaded

/-- What is known of a loaded unit when nothing waits is what loading it by its key would record. -/
theorem Pending.get?_map_lists (h : Pending workspace roots index stack) (name : String) :
    (index.get? name).map lists =
      if index.isLoaded name then some (lists (index.usesOf workspace (UnitName.key name)))
      else none := by
  have hloaded : index.isLoaded name = (index.get? name).isSome :=
    NameTable.contains_eq_isSome_find? ..
  cases huses : index.get? name with
  | none => simp [hloaded, huses]
  | some uses => simp [hloaded, huses, h.recorded name uses huses]

/-- Builds list units under the keys of their names. -/
theorem Keyed.buildAll (h : index.Keyed) (calls : List (List String)) :
    (index.buildAll workspace calls).Keyed := by
  induction calls generalizing index with
  | nil => exact h
  | cons roots rest ih => exact ih (h.build roots)

end Index

open Index in
/-- Builds of an index without loaded units. The loop of every build ends. Afterwards a unit is
loaded if and only if the roots of all builds together need it. What is known of every unit, its own
name apart, is the same for any other builds that have the same roots in some order and division. -/
theorem build_loads_needed (workspace : Workspace) {index : Index} (hfresh : index.uses = .empty)
    (calls : List (List String)) :
    (∀ (start : Index) (stack : List String), ∃ turns, (turn workspace)^[turns] (start, stack) =
      ((start.loadAll workspace stack).value, [])) ∧
    (∀ name, (index.buildAll workspace calls).isLoaded name ↔
      Needed (Mentions workspace index) calls.flatten (UnitName.key name)) ∧
    ∀ others : List (List String), (∀ root, root ∈ others.flatten ↔ root ∈ calls.flatten) →
      (index.buildAll workspace others).uses.keys = (index.buildAll workspace calls).uses.keys ∧
      ∀ name, ((index.buildAll workspace others).get? name).map lists =
        ((index.buildAll workspace calls).get? name).map lists := by
  have hpending : ∀ calls, Pending workspace calls.flatten (index.buildAll workspace calls) [] :=
    fun calls => (Pending.fresh hfresh).buildAll calls
  have hloaded : ∀ calls name, (index.buildAll workspace calls).isLoaded name ↔
      Needed (Mentions workspace index) calls.flatten (UnitName.key name) := by
    intro calls name
    rw [(hpending calls).isLoaded_iff, (buildAll_frame workspace index calls).1]
  refine ⟨loadAll_turns workspace, hloaded calls, fun others hroots => ?_⟩
  have hsame : ∀ name, (index.buildAll workspace others).isLoaded name =
      (index.buildAll workspace calls).isLoaded name := by
    intro name
    rw [Bool.eq_iff_iff, hloaded, hloaded]
    exact ⟨Needed.mono fun root => (hroots root).1, Needed.mono fun root => (hroots root).2⟩
  have hkeyed : ∀ calls, (index.buildAll workspace calls).Keyed :=
    (Keyed.of_uses_empty hfresh).buildAll
  refine ⟨NameTable.keys_eq_of_mem_iff fun key => ?_, fun name => ?_⟩
  · rw [(hkeyed others).mem_keys_iff, (hkeyed calls).mem_keys_iff, hsame]
  · rw [(hpending others).get?_map_lists, (hpending calls).get?_map_lists, hsame,
      (buildAll_frame workspace index others).2, (buildAll_frame workspace index calls).2]

/-- A project file among the roots of the second build, for instance. A unit is loaded that is
mentioned in an include file of it, and so is one that this unit mentions. -/
theorem build_loads_mentioned_units :
    let directive : Bytes := [123, 36, 73, 32, 120, 125]
    let workspace : Workspace :=
      { tree := ((FileTree.empty.write ["m.dpr"] directive).write ["x.inc"] [66]).write
          ["b.pas"] [67]
        here := [], systemScratch := "/tmp", run := "1" }
    let index : Index :=
      { unitPaths := ((NameTable.empty.insert "m" "m.dpr").insert "b" "b.pas").insert "c" "c.pas"
        includePaths := NameTable.empty.insert "x" "x.inc" }
    index.uses = .empty ∧
      ∀ name ∈ ["M", "B", "C"],
        (index.buildAll workspace [["a"], ["src/M.dpr"]]).isLoaded name := by
  intro directive workspace index
  have hincluded : Mentions workspace index "m" "b" := by
    have hpath : index.unitPaths.find? "m" = some "m.dpr" := by decide +kernel
    have hread : workspace.read "m.dpr" = .ok directive := by decide +kernel
    have hdelivered : delivered directive = [(.directive, directive), (.eof, [])] := by
      decide +kernel
    have hinclude : Source.isInclude (Bytes.latin directive) := by decide +kernel
    have hfile : index.includePaths.find? (UnitName.ofPath (Source.includeName
        (Bytes.latin directive))) = some "x.inc" := by
      decide +kernel
    have hreadFile : workspace.read "x.inc" = .ok [66] := by decide +kernel
    have hname : delivered [66] = [(.identifier, [66]), (.eof, [])] := by decide +kernel
    have hknown : index.unitPaths.contains (Bytes.latin [66]) := by decide +kernel
    exact ⟨"m.dpr", _, hpath, .followed hread (hdelivered ▸ List.mem_cons_self) hinclude hfile
      (.here hreadFile (hname ▸ List.mem_cons_self)), hknown, by decide +kernel, by decide⟩
  have hused : Mentions workspace index "b" "c" := by
    have hpath : index.unitPaths.find? "b" = some "b.pas" := by decide +kernel
    have hread : workspace.read "b.pas" = .ok [67] := by decide +kernel
    have hname : delivered [67] = [(.identifier, [67]), (.eof, [])] := by decide +kernel
    have hknown : index.unitPaths.contains (Bytes.latin [67]) := by decide +kernel
    exact ⟨"b.pas", _, hpath, .here hread (hname ▸ List.mem_cons_self), hknown,
      by decide +kernel, by decide⟩
  have hroot : Needed (Mentions workspace index) [["a"], ["src/M.dpr"]].flatten "m" := by
    have hkey : UnitName.key (UnitName.ofPath "src/M.dpr") = "m" := by decide +kernel
    exact hkey ▸ .root (by simp)
  have hneeded : ∀ name ∈ ["M", "B", "C"],
      Needed (Mentions workspace index) [["a"], ["src/M.dpr"]].flatten (UnitName.key name) := by
    have hkeys : ["M", "B", "C"].map UnitName.key = ["m", "b", "c"] := by decide +kernel
    rw [← List.forall_mem_map (f := UnitName.key), hkeys]
    simp only [List.forall_mem_cons]
    exact ⟨hroot, .mention hroot hincluded, .mention (.mention hroot hincluded) hused, nofun⟩
  exact ⟨rfl, fun name hname =>
    ((build_loads_needed workspace rfl _).2.1 name).2 (hneeded name hname)⟩

end PascalUnits
