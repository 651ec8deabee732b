import PascalUnits.Proofs.Index.Persistence

/-!
# The names that units are loaded under

A build puts the names that it meets on a stack and loads each unit under the first of its names
that comes to the top, which is the one that was met last (`Stacked.find?_eq`). `loadOrder` lists
the names under which units are loaded, and a build does no more than load these one after the other
(`loadAll_eq_foldlM`). The main statement is `build_names_by_last_met`.
-/

namespace PascalUnits

/-- What follows a result matters for its value only. -/
theorem Traced.bind_congr {α β : Type} {first : Traced α} {next other : α → Traced β}
    (h : next first.value = other first.value) : first >>= next = first >>= other := by
  simp only [bind, h]

namespace Index

/-- The names under which the loop over a stack loads units, in the order in which it does. -/
def loadOrder (workspace : Workspace) (index : Index) (stack : List String) : List String :=
  match stack with
  | [] => []
  | unit :: rest =>
    let visited := (index.visit workspace unit).value
    let later := loadOrder workspace visited.1 (visited.2.reverse ++ rest)
    if index.isLoaded unit then later else unit :: later
termination_by (index.pending.length, stack.length)
decreasing_by
  rcases pending_visit workspace index unit with less | ⟨least, nothing⟩
  · exact Prod.Lex.left _ _ less
  · rw [nothing]
    rcases Nat.lt_or_eq_of_le least with less | same
    · exact Prod.Lex.left _ _ less
    · rw [same]
      exact Prod.Lex.right _ (by simp)

/-- Loads a unit, for what becomes of the index. -/
def loadOne (workspace : Workspace) (index : Index) (unit : String) : Traced Index := do
  return (← index.load workspace unit).1

/-- The names of registered units other than itself that a unit mentions, in the order of the text
with include files in place. -/
def references (workspace : Workspace) (index : Index) (unit : String) : List String :=
  match index.unitPaths.find? unit with
  | none => []
  | some path => (index.counted unit (index.sourceFindings workspace unit path)).map (·.2)

/-- Whether a name names the same unit. -/
def namesSame (name other : String) : Bool :=
  UnitName.key other == UnitName.key name

/-- The stack holds the names that were `met`, the last one first, but for names of loaded units. -/
def Stacked (index : Index) (stack met : List String) : Prop :=
  (stack.filter fun name => !index.isLoaded name) =
    met.reverse.filter fun name => !index.isLoaded name

variable {workspace : Workspace} {index : Index} {unit name : String} {rest stack met : List String}

/-- Loading a unit does not change what units lead to. -/
theorem followed_load (workspace : Workspace) (index : Index) (unit : String) :
    (index.load workspace unit).value.1.followed workspace = index.followed workspace := by
  rw [load_index]
  split <;> rfl

/-- The loop loads the first unit of the stack and goes on with what it leads to. -/
theorem loadAll_cons (workspace : Workspace) (index : Index) (unit : String) (rest : List String) :
    loadAll workspace index (unit :: rest) = (do
      let after ← loadOne workspace index unit
      loadAll workspace after ((index.visit workspace unit).value.2.reverse ++ rest)) := by
  have hevents : (index.visit workspace unit).events = (loadOne workspace index unit).events := rfl
  rw [loadAll, hevents]
  rfl

/-- The rule for the order: it follows the loop. -/
theorem loadOrder_rule (workspace : Workspace) (holds : Index → List String → List String → Prop)
    (hdone : ∀ index, holds index [] [])
    (hloaded : ∀ index unit rest order, index.isLoaded unit → holds index rest order →
      holds index (unit :: rest) order)
    (hnew : ∀ index unit rest order, index.isLoaded unit = false →
      holds (index.load workspace unit).value.1
        ((index.visit workspace unit).value.2.reverse ++ rest) order →
      holds index (unit :: rest) (unit :: order))
    (index : Index) (stack : List String) :
    holds index stack (loadOrder workspace index stack) := by
  fun_induction loadOrder workspace index stack with
  | case1 index => exact hdone index
  | case2 index unit rest visited later hunit ih =>
      have hvisited : visited = (index, []) := congrArg Traced.value (visit_of_isLoaded hunit)
      simp only [later, hvisited] at ih ⊢
      exact hloaded index unit rest _ hunit ih
  | case3 index unit rest visited later hunit ih =>
      exact hnew index unit rest _ (Bool.not_eq_true _ ▸ hunit) ih

/-- A unit that is not loaded comes next. -/
theorem loadOrder_cons (h : index.isLoaded unit = false) :
    loadOrder workspace index (unit :: rest) =
      unit :: loadOrder workspace (index.load workspace unit).value.1
        ((index.visit workspace unit).value.2.reverse ++ rest) := by
  rw [loadOrder, if_neg (by simp [h])]
  rfl

/-- The loop over a stack loads the units of `loadOrder` one after the other, and does no more. -/
theorem loadAll_eq_foldlM (workspace : Workspace) (index : Index) (stack : List String) :
    loadAll workspace index stack =
      (loadOrder workspace index stack).foldlM (loadOne workspace) index := by
  refine loadOrder_rule workspace (fun index stack order =>
    loadAll workspace index stack = order.foldlM (loadOne workspace) index) ?_ ?_ ?_ index stack
  · intro index
    rw [loadAll]
    rfl
  · intro index unit rest order hunit hrest
    rw [loadAll_cons_of_isLoaded hunit, hrest]
  · intro index unit rest order _ hrest
    rw [loadAll_cons, List.foldlM_cons]
    exact Traced.bind_congr hrest

/-- It loads each unit once, and none that is loaded before. -/
theorem loadOrder_nodup (workspace : Workspace) (index : Index) (stack : List String) :
    ((loadOrder workspace index stack).map UnitName.key).Nodup ∧
      ∀ name ∈ loadOrder workspace index stack, index.isLoaded name = false := by
  refine loadOrder_rule workspace (fun index _ order => (order.map UnitName.key).Nodup ∧
    ∀ name ∈ order, index.isLoaded name = false) ?_ ?_ ?_ index stack
  · exact fun _ => ⟨.nil, nofun⟩
  · exact fun _ _ _ _ _ h => h
  · intro index unit rest order hunit h
    obtain ⟨hnodup, hunloaded⟩ := h
    have hlater : ∀ name ∈ order,
        UnitName.key unit ≠ UnitName.key name ∧ index.isLoaded name = false := by
      intro name hname
      have hname := hunloaded name hname
      rwa [isLoaded_load, Bool.or_eq_false_iff, beq_eq_false_iff_ne] at hname
    refine ⟨List.nodup_cons.2 ⟨fun hmem => ?_, hnodup⟩, List.forall_mem_cons.2 ⟨hunit, ?_⟩⟩
    · obtain ⟨name, hname, hsame⟩ := List.mem_map.1 hmem
      exact (hlater name hname).1 hsame.symm
    · exact fun name hname => (hlater name hname).2

/-- What is known of a loaded unit stays when others are loaded. -/
theorem get?_loadAll (h : index.isLoaded name) :
    (loadAll workspace index stack).value.get? name = index.get? name := by
  refine (loadAll_rule (fun after _ => after.isLoaded name ∧ after.get? name = index.get? name) ?_
    ⟨h, rfl⟩).2
  intro after unit rest hafter
  obtain ⟨hloaded, hget⟩ := hafter
  refine ⟨by rw [isLoaded_load, hloaded, Bool.or_true], ?_⟩
  rw [get?_load, if_neg, hget]
  rintro ⟨hunloaded, hsame⟩
  have hcongr := after.uses.contains_congr hsame
  exact Bool.false_ne_true (hunloaded.symm.trans (hcongr.trans hloaded))

/-- Each unit in the order is loaded under this name. -/
theorem normalName?_loadAll (workspace : Workspace) (index : Index) (stack : List String) :
    ∀ name ∈ loadOrder workspace index stack,
      (loadAll workspace index stack).value.normalName? name = some name := by
  refine loadOrder_rule workspace (fun index stack order => ∀ name ∈ order,
    (loadAll workspace index stack).value.normalName? name = some name) ?_ ?_ ?_ index stack
  · exact fun _ => nofun
  · intro index unit rest order hunit hrest
    rwa [loadAll_cons_of_isLoaded hunit]
  · intro index unit rest order hunit hrest
    rw [loadAll_cons]
    refine List.forall_mem_cons.2 ⟨?_, hrest⟩
    have hloaded : (index.load workspace unit).value.1.isLoaded unit := by
      rw [isLoaded_load, beq_self_eq_true, Bool.true_or]
    refine (congrArg (Option.map _) (get?_loadAll hloaded)).trans ?_
    rw [get?_load, if_pos ⟨hunit, rfl⟩, Option.map_some, unit_usesOf]

/-- A unit is loaded if it was before, or if it is in the order under some name. -/
theorem isLoaded_loadAll_iff (workspace : Workspace) (index : Index) (stack : List String)
    (name : String) :
    (loadAll workspace index stack).value.isLoaded name ↔ index.isLoaded name ∨
      UnitName.key name ∈ (loadOrder workspace index stack).map UnitName.key := by
  refine loadOrder_rule workspace (fun index stack order =>
    (loadAll workspace index stack).value.isLoaded name ↔ index.isLoaded name ∨
      UnitName.key name ∈ order.map UnitName.key) ?_ ?_ ?_ index stack
  · intro index
    simp [loadAll]
  · intro index unit rest order hunit hrest
    rwa [loadAll_cons_of_isLoaded hunit]
  · intro index unit rest order hunit hrest
    rw [loadAll_cons]
    refine hrest.trans ?_
    rw [isLoaded_load, Bool.or_eq_true, beq_iff_eq, List.map_cons, List.mem_cons, or_assoc,
      or_left_comm, eq_comm (a := UnitName.key unit)]

/-- A loaded unit is taken from the stack. -/
theorem Stacked.pop (h : index.Stacked (unit :: rest) met) (hunit : index.isLoaded unit) :
    index.Stacked rest met := by
  rw [Stacked, List.filter_cons_of_neg (by simp [hunit])] at h
  exact h

/-- A unit that is not loaded is loaded, and the names that it leads to are met. -/
theorem Stacked.load (h : index.Stacked (unit :: rest) met) (hunit : index.isLoaded unit = false) :
    (index.load workspace unit).value.1.Stacked
      ((index.visit workspace unit).value.2.reverse ++ rest)
      (met ++ index.followed workspace unit) := by
  have hrest : (rest.filter fun name => !(index.load workspace unit).value.1.isLoaded name) =
      met.reverse.filter fun name => !(index.load workspace unit).value.1.isLoaded name := by
    -- what is not loaded now was not loaded before, and the unit itself is loaded now
    have hfiltered := congrArg
      (List.filter fun name => !(index.load workspace unit).value.1.isLoaded name) h
    simp only [List.filter_filter, isLoaded_load, Bool.not_or, Bool.and_assoc, Bool.and_self]
      at hfiltered ⊢
    rwa [List.filter_cons_of_neg (by simp)] at hfiltered
  have hnames : (index.visit workspace unit).value.2 = (index.followed workspace unit).filter
      fun name => !(index.load workspace unit).value.1.isLoaded name := by
    rw [visit_names, if_neg (by simp [hunit])]
  rw [Stacked, List.filter_append, hrest, hnames, List.reverse_append, List.filter_append]
  simp only [List.filter_reverse, List.filter_filter, Bool.and_self]

/-- A unit that is not loaded and on top of the stack has the name that was met last. -/
theorem Stacked.find?_eq (h : index.Stacked (unit :: rest) met)
    (hunit : index.isLoaded unit = false) :
    met.reverse.find? (namesSame unit) = some unit := by
  have hsame : ∀ name, namesSame unit name → index.isLoaded name = false := by
    intro name hname
    rw [isLoaded, index.uses.contains_congr (beq_iff_eq.1 hname)]
    exact hunit
  have hfilter : met.reverse.find? (namesSame unit) =
      (met.reverse.filter fun name => !index.isLoaded name).find? (namesSame unit) := by
    rw [List.find?_filter]
    refine congrArg (List.find? · met.reverse) (funext fun name => ?_)
    cases hname : namesSame unit name with
    | false => simp
    | true => simp [hsame name hname]
  rw [hfilter, ← h, List.filter_cons_of_pos (by simp [hunit]),
    List.find?_cons_of_pos (by simp [namesSame])]

/-- So each unit is loaded under the one of its names that was met last. -/
theorem loadOrder_spelling (workspace : Workspace) (index : Index) (stack : List String) :
    ∀ met, index.Stacked stack met → ∀ before name after,
      loadOrder workspace index stack = before ++ name :: after →
      (met ++ before.flatMap (index.followed workspace)).reverse.find? (namesSame name) =
        some name := by
  refine loadOrder_rule workspace (fun index stack order =>
    ∀ met, index.Stacked stack met → ∀ before name after, order = before ++ name :: after →
      (met ++ before.flatMap (index.followed workspace)).reverse.find? (namesSame name) =
        some name) ?_ ?_ ?_ index stack
  · intro index met _ before name after horder
    simp at horder
  · intro index unit rest order hunit hrest met hmet
    exact hrest met (hmet.pop hunit)
  · intro index unit rest order hunit hrest met hmet before name after horder
    cases before with
    | nil =>
        obtain ⟨rfl, -⟩ := List.cons.inj horder
        rw [List.flatMap_nil, List.append_nil]
        exact hmet.find?_eq hunit
    | cons first before =>
        obtain ⟨rfl, hbefore⟩ := List.cons.inj horder
        have hlater := hrest _ (hmet.load hunit) before name after hbefore
        rwa [followed_load, List.append_assoc, ← List.flatMap_cons] at hlater

/-- A reading leads to names that are mentioned. -/
theorem mem_counted_of_following {findings : List Finding}
    (h : name ∈ (index.reading unit findings).following) :
    name ∈ (index.counted unit findings).map (·.2) := by
  obtain ⟨hinterface, hboth, honly⟩ := index.lists_counted unit findings
  have hmentioned : ∀ part, name ∈ Reading.namesIn part (index.counted unit findings) →
      name ∈ (index.counted unit findings).map (·.2) := by
    intro part hname
    obtain ⟨mention, hmention, rfl⟩ := List.mem_map.1 hname
    exact List.mem_map_of_mem (List.mem_of_mem_filter hmention)
  have hlisted : (name ∈ (index.reading unit findings).uses.interface ∨
      name ∈ (index.reading unit findings).uses.implementation) ∨
        name ∈ (index.reading unit findings).unrecorded := by
    simpa [Reading.following, UnitUses.edges, or_assoc] using h
  rcases hlisted with (hname | hname) | hname
  · exact hmentioned .interface (hinterface.mem_met name hname)
  · cases hparts : index.interfaceOnly with
    | false => exact hmentioned .implementation ((hboth hparts).1.mem_met name hname)
    | true => simp [(honly hparts).1] at hname
  · cases hparts : index.interfaceOnly with
    | false => simp [(hboth hparts).2] at hname
    | true =>
        rw [(honly hparts).2] at hname
        exact hmentioned .implementation hname

/-- A unit leads to names that it mentions. -/
theorem mem_references_of_followed (h : name ∈ index.followed workspace unit) :
    name ∈ index.references workspace unit := by
  unfold followed at h
  unfold references
  cases hpath : index.unitPaths.find? unit with
  | none => simp [hpath] at h
  | some path => exact mem_counted_of_following (by simpa [hpath] using h)

/-- So the names that are met are names that are referred to. -/
theorem mem_references_of_met {units : List String}
    (h : name ∈ met ++ units.flatMap (index.followed workspace)) :
    name ∈ met ++ units.flatMap (index.references workspace) := by
  rcases List.mem_append.1 h with hroot | hfollowed
  · exact List.mem_append_left _ hroot
  · obtain ⟨unit, hunit, hname⟩ := List.mem_flatMap.1 hfollowed
    exact List.mem_append_right _
      (List.mem_flatMap.2 ⟨unit, hunit, mem_references_of_followed hname⟩)

/-- The last of the names that a unit leads to is loaded next. -/
theorem exists_loadOrder_eq_cons {names : List String} (hunit : index.isLoaded unit = false)
    (hname : index.isLoaded name = false) (hother : UnitName.key unit ≠ UnitName.key name)
    (hfollowed : index.followed workspace unit = names ++ [name]) (stack : List String) :
    ∃ more, loadOrder workspace index (unit :: stack) = unit :: name :: more := by
  have hnext : (index.load workspace unit).value.1.isLoaded name = false := by
    rw [isLoaded_load, hname, Bool.or_false, beq_eq_false_iff_ne]
    exact hother
  rw [loadOrder_cons hunit, visit_names, if_neg (by simp [hunit]), hfollowed, List.filter_append,
    List.filter_singleton, hnext, Bool.not_false, cond_true, List.reverse_append,
    List.reverse_singleton, List.append_assoc, List.singleton_append, loadOrder_cons hnext]
  exact ⟨_, rfl⟩

end Index

open Index

/-- A build knows each unit that it loads by the name that was met last. It notes its roots and
loads the units of `order` one after the other, each one once. These are loaded then besides the
units that were loaded before, whose names stay. Names are met in the list of the roots, and then,
unit by unit in this order, among those that a unit leads to: first its recorded uses, part by part
and in the order of their keys, then what is not recorded. The first reference to a unit, in the
order of the roots and the texts, also comes before the unit is loaded, but it is the name of the
unit only where it is spelled like the name that was met last. It is where all references are
spelled alike that come before the unit is loaded. -/
theorem build_names_by_last_met (workspace : Workspace) (index : Index) (roots : List String) :
    let names := roots.map UnitName.ofPath
    let start : Index := { index with roots := index.roots ++ names }
    let order := loadOrder workspace start names.reverse
    let built := (index.build workspace roots).value
    let met := fun units => names ++ units.flatMap (index.followed workspace)
    let referenced := fun units => names ++ units.flatMap (index.references workspace)
    (index.build workspace roots = do
      let built ← order.foldlM (loadOne workspace) start
      Traced.tell (.indexBuilt built.roots.length built.uses.size)
      return built) ∧
    (order.map UnitName.key).Nodup ∧
    (∀ name, built.isLoaded name ↔
      index.isLoaded name ∨ UnitName.key name ∈ order.map UnitName.key) ∧
    (∀ name, index.isLoaded name → built.normalName? name = index.normalName? name) ∧
    ∀ before name after, order = before ++ name :: after →
      index.isLoaded name = false ∧
      built.normalName? name = some name ∧
      (met before).reverse.find? (namesSame name) = some name ∧
      ∃ first ∈ referenced before,
        (referenced order).find? (namesSame name) = some first ∧
        ((∀ other ∈ referenced before, namesSame name other → other = first) →
          built.normalName? name = some first) := by
  intro names start order built met referenced
  obtain ⟨hnodup, hunloaded⟩ := loadOrder_nodup workspace start names.reverse
  refine ⟨?_, hnodup, isLoaded_loadAll_iff workspace start names.reverse, ?_, ?_⟩
  · rw [← loadAll_eq_foldlM]
    rfl
  · intro name hloaded
    have hbefore : start.isLoaded name := hloaded
    exact congrArg (Option.map _) (get?_loadAll hbefore)
  · intro before name after horder
    have hmem : name ∈ order := by simp [horder]
    have hnamed : built.normalName? name = some name :=
      normalName?_loadAll workspace start names.reverse name hmem
    have hmet : (met before).reverse.find? (namesSame name) = some name :=
      loadOrder_spelling workspace start names.reverse names rfl before name after horder
    have hreferenced : name ∈ referenced before :=
      mem_references_of_met (List.mem_reverse.1 (List.mem_of_find?_eq_some hmet))
    obtain ⟨first, hfirst⟩ : ∃ first, (referenced before).find? (namesSame name) = some first := by
      rw [← Option.isSome_iff_exists, List.find?_isSome]
      exact ⟨name, hreferenced, by simp [namesSame]⟩
    refine ⟨hunloaded name hmem, hnamed, hmet, first, List.mem_of_find?_eq_some hfirst, ?_, ?_⟩
    · have hparts : referenced order = referenced before ++
          (name :: after).flatMap (index.references workspace) := by
        simp only [referenced, horder, List.flatMap_append, List.append_assoc]
      rw [hparts, List.find?_append, hfirst, Option.some_or]
    · intro halike
      rw [hnamed, halike name hreferenced (by simp [namesSame])]

/-- A unit whose two parts spell a use differently, for instance. The used unit is known as the
second part spells it. -/
theorem build_names_by_second_part :
    let workspace : Workspace :=
      { tree := (FileTree.empty.write ["A.pas"]
            (Bytes.ofText "unit A;\ninterface\nuses b;\nimplementation\nuses B;\nend.")).write
          ["B.pas"] (Bytes.ofText "unit B; end.")
        here := [], systemScratch := "/tmp", run := "1" }
    let index := afterAll {} [(workspace, .addUnitPath "A.pas"), (workspace, .addUnitPath "B.pas")]
    let built := (index.build workspace ["A"]).value
    ∃ after, loadOrder workspace { index with roots := ["A"] } ["A"] = ["A"] ++ "B" :: after ∧
      built.normalName? "B" = some "B" := by
  intro workspace index built
  have hfollowed : { index with roots := ["A"] }.followed workspace "A" = ["b"] ++ ["B"] := by
    decide +kernel
  obtain ⟨after, horder⟩ := exists_loadOrder_eq_cons (by decide +kernel) (by decide +kernel)
    (by decide +kernel) hfollowed []
  obtain ⟨-, -, -, -, hnamed⟩ := build_names_by_last_met workspace index ["A"]
  have hnames : ["A"].map UnitName.ofPath = ["A"] := by decide +kernel
  rw [hnames] at hnamed
  exact ⟨after, horder, (hnamed ["A"] "B" after horder).2.1⟩

/-- The first reference to it is in the first part. -/
theorem build_forgets_first_reference :
    let workspace : Workspace :=
      { tree := (FileTree.empty.write ["A.pas"]
            (Bytes.ofText "unit A;\ninterface\nuses b;\nimplementation\nuses B;\nend.")).write
          ["B.pas"] (Bytes.ofText "unit B; end.")
        here := [], systemScratch := "/tmp", run := "1" }
    let index := afterAll {} [(workspace, .addUnitPath "A.pas"), (workspace, .addUnitPath "B.pas")]
    let built := (index.build workspace ["A"]).value
    let order := loadOrder workspace { index with roots := ["A"] } ["A"]
    (["A"] ++ order.flatMap (index.references workspace)).find? (namesSame "B") = some "b" ∧
      built.normalName? "B" = some "B" := by
  intro workspace index built order
  have hreferences : index.references workspace "A" = ["b", "B"] := by decide +kernel
  have hfollowed : { index with roots := ["A"] }.followed workspace "A" = ["b"] ++ ["B"] := by
    decide +kernel
  obtain ⟨after, horder⟩ := exists_loadOrder_eq_cons (by decide +kernel) (by decide +kernel)
    (by decide +kernel) hfollowed []
  refine ⟨?_, ?_⟩
  · simp only [order]
    rw [horder, List.flatMap_cons, hreferences]
    have hfirst : (["A"] ++ ["b", "B"]).find? (namesSame "B") = some "b" := by decide +kernel
    rw [← List.append_assoc, List.find?_append, hfirst, Option.some_or]
  · have hroots : ["A"].map UnitName.ofPath = ["A"] := by decide +kernel
    have hbuilt : built = (loadAll workspace { index with roots := ["A"] } ["A"]).value := by
      simp only [built, build_index, hroots]
      rfl
    rw [hbuilt]
    exact normalName?_loadAll workspace _ ["A"] "B" (by simp [horder])

end PascalUnits
