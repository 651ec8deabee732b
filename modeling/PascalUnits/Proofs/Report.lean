import Mathlib.Data.List.Nodup
import PascalUnits.Proofs.Index.Resumption
import PascalUnits.Report

/-!
# What reports show

All reports of an index show the same uses (`shownUses`), in the same order: the plain list and the
graph description one after the other, the listing unit by unit, and the graph of numbers those of
loaded units. `block_eq` says how a unit's uses are found again among all uses, and `number?_eq` and
`mapIdx_units` say that numbers stand for names. The main statement is `reports_show_same_uses`.
-/

namespace PascalUnits

/-- A use as it is shown: who uses whom, and in which part. -/
structure ShownUse where
  unit : String
  used : String
  part : UnitPart
  deriving DecidableEq, Repr

namespace ShownUse

/-- The two names with an arrow between them. -/
def arrow (use : ShownUse) : String :=
  "\t" ++ use.unit ++ " -> " ++ use.used

/-- The line in a plain list. -/
def plainLine (use : ShownUse) : String :=
  use.arrow ++ ";"

/-- The line in a graph description, dashed if the use is in an implementation part. -/
def graphLine (use : ShownUse) : String :=
  match use.part with
  | .interface => use.arrow ++ ";"
  | .implementation => use.arrow ++ " [style=dashed;dir=both;weight=0];"

/-- The line below the name of the unit that uses. -/
def listLine (use : ShownUse) : String :=
  match use.part with
  | .interface => "\t+ " ++ use.used
  | .implementation => "\t- " ++ use.used

/-- The line of numbers, if these are the places of the names from one. -/
def numberLine (names : List String) (use : ShownUse) : String :=
  s!"{names.idxOf use.unit + 1} {names.idxOf use.used + 1}"

end ShownUse

namespace Report

/-- The names of the loaded units, in the order of their keys. -/
def loadedNames (index : Index) : List String :=
  index.uses.toList.map fun entry => entry.2.unit

/-- The name of a unit as it is shown: that of the loaded unit, or as it is recorded. -/
def spelling (index : Index) (name : String) : String :=
  match index.get? name with
  | some uses => uses.unit
  | none => name

/-- All uses, in the order of the keys of the units that use, those of interface parts first. -/
def shownUses (index : Index) : List ShownUse :=
  index.uses.toList.flatMap fun entry =>
    (entry.2.interface.map fun name =>
      { unit := entry.2.unit, used := spelling index name, part := .interface }) ++
    entry.2.implementation.map fun name =>
      { unit := entry.2.unit, used := spelling index name, part := .implementation }

variable {index : Index} {unit name : String}

theorem displayName_eq (index : Index) (name : String) :
    index.displayName name = spelling index name := by
  rw [Index.displayName, Index.normalName?, spelling]
  cases index.get? name <;> rfl

/-- The use of a unit as it is shown. -/
def shown (index : Index) (unit : String) (use : String × UnitPart) : ShownUse :=
  { unit, used := index.displayName use.1, part := use.2 }

/-- The uses are those of the units, one unit after the other. -/
theorem shownUses_eq (index : Index) :
    shownUses index = (units index).flatMap fun uses => uses.edges.map (shown index uses.unit) := by
  rw [units, NameTable.values_eq_map_toList, List.flatMap_map]
  simp [shownUses, UnitUses.edges, shown, displayName_eq, Function.comp_def]

/-- So are their lines. -/
theorem map_shownUses (line : ShownUse → String) (index : Index) :
    (shownUses index).map line =
      (units index).flatMap fun uses => uses.edges.map (line ∘ shown index uses.unit) := by
  rw [shownUses_eq, List.map_flatMap]
  simp only [List.map_map]

theorem loadedNames_eq (index : Index) : loadedNames index = (units index).map (·.unit) := by
  rw [units, NameTable.values_eq_map_toList, List.map_map, loadedNames]
  rfl

/-- Loaded units are named in the order of their keys. -/
theorem map_key_loadedNames (h : index.Keyed) :
    (loadedNames index).map UnitName.key = index.uses.keys := by
  rw [loadedNames_eq]
  exact UsesGraph.map_key_units h

/-- No name is there twice. -/
theorem nodup_loadedNames (h : index.Keyed) : (loadedNames index).Nodup := by
  refine List.Nodup.of_map UnitName.key ?_
  rw [map_key_loadedNames h]
  exact index.uses.nodup_keys

/-- The name of a loaded unit is among the names. -/
theorem spelling_mem (h : index.isLoaded name) : spelling index name ∈ loadedNames index := by
  rw [Index.isLoaded, NameTable.contains_eq_isSome_find?, Option.isSome_iff_exists] at h
  obtain ⟨uses, huses⟩ := h
  have hentry : (UnitName.key name, uses) ∈ index.uses.toList := by
    rw [NameTable.mem_toList_iff_find? (UnitName.key_key name), NameTable.find?_key]
    exact huses
  rw [spelling, Index.get?, huses]
  exact List.mem_map.2 ⟨_, hentry, rfl⟩

/-- A name is shown in some spelling of itself. -/
theorem key_spelling (h : index.Keyed) (name : String) :
    UnitName.key (spelling index name) = UnitName.key name := by
  rw [spelling]
  cases huses : index.get? name with
  | none => rfl
  | some uses =>
      refine h (UnitName.key name) uses ?_
      rw [NameTable.mem_toList_iff_find? (UnitName.key_key name), NameTable.find?_key]
      exact huses

/-- The uses of a unit are those among all uses that go by its name. -/
theorem block_eq (h : index.Keyed) {uses : UnitUses} (huses : uses ∈ units index) :
    ((shownUses index).filter fun use => use.unit == uses.unit) =
      uses.edges.map (shown index uses.unit) := by
  have hnodup : ((units index).map (·.unit)).Nodup := by
    rw [← loadedNames_eq]
    exact nodup_loadedNames h
  rw [shownUses_eq]
  refine filter_flatMap_of_nodup ?_ hnodup huses
  intro uses use huse
  obtain ⟨_, _, rfl⟩ := List.mem_map.1 huse
  rfl

/-- The uses are found again, unit by unit. -/
theorem flatMap_block (h : index.Keyed) :
    ((loadedNames index).flatMap fun unit =>
      (shownUses index).filter fun use => use.unit == unit) = shownUses index := by
  rw [loadedNames_eq, List.flatMap_map]
  conv_rhs => rw [shownUses_eq]
  exact List.flatMap_congr fun uses huses => block_eq h huses

/-- If items have distinct keys, their places are those of their keys. -/
theorem mapIdx_eq_map_idxOf {α β : Type} {items : List α} {key : α → String}
    (hnodup : (items.map key).Nodup) (line : Nat → α → β) :
    items.mapIdx line = items.map fun item => line ((items.map key).idxOf (key item)) item := by
  refine List.ext_getElem (by simp) fun place hplace _ => ?_
  rw [List.length_mapIdx] at hplace
  have hkey : (items.map key)[place]? = some (key items[place]) := by simp [hplace]
  have hlength : place < (items.map key).length := by rwa [List.length_map]
  have hidx := hnodup.idxOf_getElem place hlength
  rw [List.getElem_map] at hidx
  rw [List.getElem_mapIdx, List.getElem_map, hidx]

/-- Lines of units by their places are lines by the places of their names. -/
theorem mapIdx_units (h : index.Keyed) {β : Type} (line : Nat → UnitUses → β) :
    (units index).mapIdx line =
      (units index).map fun uses => line ((loadedNames index).idxOf uses.unit) uses := by
  have hnodup := nodup_loadedNames h
  rw [loadedNames_eq] at hnodup ⊢
  exact mapIdx_eq_map_idxOf hnodup line

theorem isLoaded_spelling (h : index.Keyed) (name : String) :
    index.isLoaded (spelling index name) = index.isLoaded name :=
  index.uses.contains_congr (key_spelling h name)

/-- A use has the number of the name that it is shown by, if the used unit is loaded. -/
theorem number?_eq (h : index.Keyed) (name : String) :
    number? index (UnitName.key name) =
      if index.isLoaded name then some ((loadedNames index).idxOf (spelling index name) + 1)
      else none := by
  rw [number?]
  split
  · rename_i hloaded
    have hkeys := map_key_loadedNames h
    have hplace := List.idxOf_lt_length_iff.2 (spelling_mem hloaded)
    have hlength : (loadedNames index).idxOf (spelling index name) < index.uses.keys.length := by
      rwa [← hkeys, List.length_map]
    have hfound : index.uses.keys.findIdx? (· == UnitName.key name) =
        some ((loadedNames index).idxOf (spelling index name)) := by
      have hkey : index.uses.keys.get ⟨_, hlength⟩ = UnitName.key name := by
        simp [← hkeys, key_spelling h]
      refine List.findIdx?_eq_some_iff_getElem.2 ⟨hlength, beq_iff_eq.2 hkey, ?_⟩
      intro before hbefore hsame
      -- the key would be listed twice
      have hsecond : index.uses.keys.get ⟨before, hbefore.trans hlength⟩ = UnitName.key name :=
        beq_iff_eq.1 hsame
      have hequal := index.uses.nodup_keys.getElem_inj_iff.1 (hsecond.trans hkey.symm)
      exact Nat.ne_of_lt hbefore hequal
    rw [hfound]
    rfl
  · rename_i hunloaded
    rw [Option.map_eq_none_iff, List.findIdx?_eq_none_iff]
    intro key hkey
    refine beq_eq_false_iff_ne.2 ?_
    rintro rfl
    exact hunloaded (NameTable.key_mem_keys.1 hkey)

/-- The plain list shows all uses. -/
theorem edgeList_eq (index : Index) :
    edgeList index = lines ((shownUses index).map ShownUse.plainLine) := by
  rw [edgeList, map_shownUses]
  rfl

theorem dotLine_eq (index : Index) (unit : String) :
    dotLine index unit = ShownUse.graphLine ∘ shown index unit := by
  funext use
  obtain ⟨name, part⟩ := use
  cases part <;> rfl

/-- So does the graph description. -/
theorem dot_eq (index : Index) :
    dot index =
      lines ("digraph G\x7b" :: (shownUses index).map ShownUse.graphLine ++ ["\x7d"]) := by
  rw [dot, map_shownUses]
  simp only [dotLine_eq, List.cons_append]

theorem useLine_eq (index : Index) (unit : String) :
    useLine index = ShownUse.listLine ∘ shown index unit := by
  funext use
  obtain ⟨name, part⟩ := use
  cases part <;> rfl

/-- The listing shows them below the names of the units that use. -/
theorem text_eq (h : index.Keyed) (cycles : List (List String)) :
    text index cycles =
      lines ((if cycles.isEmpty then [] else cycleLines cycles ++ [""]) ++
        (loadedNames index).flatMap fun unit =>
          ("# " ++ unit) ::
            ((shownUses index).filter fun use => use.unit == unit).map ShownUse.listLine ++
            [""]) := by
  have hblocks : ((units index).flatMap fun uses =>
        ("# " ++ uses.unit) :: uses.edges.map (useLine index) ++ [""]) =
      (loadedNames index).flatMap fun unit =>
        ("# " ++ unit) ::
          ((shownUses index).filter fun use => use.unit == unit).map ShownUse.listLine ++
          [""] := by
    rw [loadedNames_eq, List.flatMap_map]
    refine List.flatMap_congr fun uses huses => ?_
    rw [block_eq h huses, List.map_map, ← useLine_eq]
  rw [text, hblocks]

/-- The nodes of the graph of numbers are the names, numbered. -/
theorem numberedUnits_eq (index : Index) :
    ((units index).mapIdx fun place uses => s!"{place + 1} {uses.unit}") =
      (loadedNames index).mapIdx fun place name => s!"{place + 1} {name}" := by
  rw [loadedNames_eq]
  refine List.ext_getElem (by simp) fun place _ _ => ?_
  simp

/-- A use has a line of numbers if the used unit is loaded. -/
theorem map_number?_eq (h : index.Keyed) (unit : String) (use : String × UnitPart) :
    ((number? index (UnitName.key use.1)).map fun target =>
        s!"{(loadedNames index).idxOf unit + 1} {target}") =
      if index.isLoaded (shown index unit use).used then
        some (ShownUse.numberLine (loadedNames index) (shown index unit use))
      else none := by
  have hused : (shown index unit use).used = spelling index use.1 := displayName_eq index use.1
  rw [number?_eq h, ShownUse.numberLine, hused, isLoaded_spelling h]
  split <;> rfl

/-- The graph of numbers shows the uses of loaded units. -/
theorem trivialGraph_eq (h : index.Keyed) :
    trivialGraph index =
      lines (((loadedNames index).mapIdx fun place name => s!"{place + 1} {name}") ++
        "#" :: ((shownUses index).filter fun use => index.isLoaded use.used).map
          (ShownUse.numberLine (loadedNames index))) := by
  have hedges : ((units index).mapIdx fun place uses =>
        uses.edges.filterMap fun use =>
          (number? index (UnitName.key use.1)).map fun target => s!"{place + 1} {target}").flatten =
      ((shownUses index).filter fun use => index.isLoaded use.used).map
        (ShownUse.numberLine (loadedNames index)) := by
    rw [mapIdx_units h, ← List.flatMap_def, shownUses_eq, List.filter_flatMap, List.map_flatMap]
    refine List.flatMap_congr fun uses _ => ?_
    rw [← List.filterMap_eq_filter, List.filterMap_map, List.map_filterMap]
    refine congrArg (List.filterMap · uses.edges) (funext fun use => ?_)
    rw [map_number?_eq h, Function.comp_apply, Option.guard]
    split <;> rfl
  rw [trivialGraph, numberedUnits_eq, hedges]

/-- The uses of the graph are in the same parts. -/
theorem map_part_uses (index : Index) :
    (UsesGraph.ofIndex index).uses.map (·.part) = (shownUses index).map (·.part) := by
  rw [shownUses_eq, units, NameTable.values_eq_map_toList, List.flatMap_map]
  simp only [UsesGraph.ofIndex, List.map_flatMap, List.map_map, Function.comp_def, shown]

/-- So there are as many in each part. -/
theorem countP_uses (index : Index) (part : UnitPart) :
    ((UsesGraph.ofIndex index).uses.countP fun use => use.part == part) =
      (shownUses index).countP fun use => use.part == part := by
  have hcount := congrArg (List.countP (· == part)) (map_part_uses index)
  rwa [List.countP_map, List.countP_map] at hcount

/-- Uses are shown that are recorded of loaded units. -/
theorem mem_shownUses (h : index.Keyed) {use : ShownUse} (huse : use ∈ shownUses index) :
    use.unit ∈ loadedNames index ∧
      ∃ name, use.used = spelling index name ∧
        ∃ source, index.Uses source (UnitName.key name) := by
  rw [shownUses, List.mem_flatMap] at huse
  obtain ⟨⟨key, uses⟩, hentry, huse⟩ := huse
  obtain ⟨-, hget⟩ := h.mem_toList_iff.1 hentry
  rcases List.mem_append.1 huse with hinterface | himplementation
  · obtain ⟨name, hname, rfl⟩ := List.mem_map.1 hinterface
    exact ⟨List.mem_map.2 ⟨_, hentry, rfl⟩, name, rfl, key, uses, hget,
      .inl (List.mem_map_of_mem hname)⟩
  · obtain ⟨name, hname, rfl⟩ := List.mem_map.1 himplementation
    exact ⟨List.mem_map.2 ⟨_, hentry, rfl⟩, name, rfl, key, uses, hget,
      .inr (List.mem_map_of_mem hname)⟩

end Report

open Report

/-- The four reports show the same uses in the same order. Let whatever be done with an index, in
surroundings that may change between any two actions. `uses` are all uses of its loaded units, in
the order of the keys of these, those of interface parts first, each shown by the name under which
the used unit was loaded. The plain list has a line for each of them, and so has the graph
description, dashed for those of implementation parts; the listing has them below the names of the
units that use; and the graph of numbers numbers the loaded units in the order of their keys and has
those uses of which the used unit is loaded. Where units are loaded by builds only, these are all
uses. -/
theorem reports_show_same_uses (settings : Settings) (actions : List (Workspace × Action)) :
    let index := Index.afterAll { settings } actions
    let names := loadedNames index
    let uses := shownUses index
    let graph := UsesGraph.ofIndex index
    (names.map UnitName.key = index.uses.keys ∧ index.uses.keys.Pairwise (· < ·)) ∧
    (write index .edgeList).value = lines (uses.map ShownUse.plainLine) ∧
    (write index .dot).value =
      lines ("digraph G\x7b" :: uses.map ShownUse.graphLine ++ ["\x7d"]) ∧
    (write index .text).value =
      lines ((if graph.cycles.isEmpty then [] else cycleLines graph.cycles ++ [""]) ++
        names.flatMap fun unit =>
          ("# " ++ unit) :: (uses.filter fun use => use.unit == unit).map ShownUse.listLine ++
            [""]) ∧
    (names.flatMap fun unit => uses.filter fun use => use.unit == unit) = uses ∧
    (write index .trivialGraph).value =
      lines ((names.mapIdx fun place name => s!"{place + 1} {name}") ++
        "#" :: (uses.filter fun use => index.isLoaded use.used).map
          (ShownUse.numberLine names)) ∧
    (∀ use ∈ uses, use.unit ∈ names ∧ (index.isLoaded use.used → use.used ∈ names)) ∧
    graph.size.interfaceUses = uses.countP (fun use => use.part == .interface) ∧
    graph.size.implementationUses = uses.countP (fun use => use.part == .implementation) ∧
    ((∀ action ∈ actions, ∀ unit, action.2 ≠ .load unit) →
      (uses.filter fun use => index.isLoaded use.used) = uses ∧
      ∀ use ∈ uses, use.used ∈ names) := by
  intro index names uses graph
  have hreached := (Index.Reached.fresh settings).afterAll actions
  have h : index.Keyed := hreached.keyed_and_rootsLoaded.1
  have hnamed : ∀ use ∈ uses, index.isLoaded use.used → use.used ∈ names := by
    intro use huse hloaded
    obtain ⟨-, name, hused, -⟩ := mem_shownUses h huse
    rw [hused] at hloaded ⊢
    rw [isLoaded_spelling h] at hloaded
    exact spelling_mem hloaded
  refine ⟨⟨map_key_loadedNames h, index.uses.pairwise_keys⟩, edgeList_eq index, dot_eq index,
    text_eq h graph.cycles, flatMap_block h, trivialGraph_eq h,
    fun use huse => ⟨(mem_shownUses h huse).1, hnamed use huse⟩,
    countP_uses index .interface, countP_uses index .implementation, fun hbuilds => ?_⟩
  have hloaded : ∀ use ∈ uses, index.isLoaded use.used := by
    intro use huse
    obtain ⟨-, name, hused, source, hsource⟩ := mem_shownUses h huse
    have hname : index.isLoaded (UnitName.key name) := Index.NoneAlone.settled hbuilds rfl hsource
    rw [hused, isLoaded_spelling h]
    rwa [Index.isLoaded, NameTable.contains_key] at hname
  exact ⟨List.filter_eq_self.2 hloaded, fun use huse => hnamed use huse (hloaded use huse)⟩

/-- A use is shown by the name under which the used unit was loaded, for instance. -/
theorem reports_show_loaded_name :
    let workspace : Workspace :=
      { tree := FileTree.empty.write ["m.pas"] [66], here := []
        systemScratch := "/tmp", run := "1" }
    let actions : List (Workspace × Action) := [(workspace, .addUnitPath "m.pas"),
      (workspace, .addUnitPath "b.pas"), (workspace, .build ["m", "b"])]
    let index := Index.afterAll {} actions
    (∀ action ∈ actions, ∀ unit, action.2 ≠ .load unit) ∧
    shownUses index = [{ unit := "m", used := "b", part := .interface }] ∧
    loadedNames index = ["b", "m"] ∧
    ∀ use ∈ shownUses index, use.used ∈ loadedNames index := by
  intro workspace actions index
  have hbuilds : ∀ action ∈ actions, ∀ unit, action.2 ≠ .load unit := by
    simp [actions]
  let registered : Index :=
    { unitPaths := (NameTable.empty.insert "m" "m.pas").insert "b" "b.pas" }
  have hbuilt : index = _ :=
    calc index = (registered.build workspace ["m", "b"]).value := by
          simp only [registered, ← Index.after_two_units workspace]
          rfl
      _ = _ := Index.value_build_of_turns workspace registered ["m", "b"] 2 (by decide +kernel)
  have huses : shownUses index = [{ unit := "m", used := "b", part := .interface }] := by
    rw [hbuilt]
    decide +kernel
  have hnames : loadedNames index = ["b", "m"] := by
    rw [hbuilt]
    decide +kernel
  obtain ⟨-, -, -, -, -, -, -, -, -, hall⟩ := reports_show_same_uses {} actions
  exact ⟨hbuilds, huses, hnames, (hall hbuilds).2⟩

end PascalUnits
