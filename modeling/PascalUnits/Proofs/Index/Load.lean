import Mathlib.Logic.Function.Iterate
import PascalUnits.Index.Build
import PascalUnits.Proofs.Index.Reading

/-!
# What loading units does

`load_index` and `mem_keys_visit` say all that loading one unit does to an index and what it leads
to: it adds `usesOf` the unit, unless the unit is loaded, and leads to what the unit mentions and is
not loaded. Everything else of an index stays as it is. `loadAll_rule` is the rule for the loop
over a stack of units, and `loadAll_turns` says that the loop ends after so many turns. To see what
one build does it is enough to take these turns (`value_build_of_turns`).
-/

namespace PascalUnits.Index

variable {workspace : Workspace} {index : Index} {unit name : String}

/-- What loading a unit records. A unit without a file uses nothing. -/
def usesOf (workspace : Workspace) (index : Index) (unit : String) : UnitUses :=
  match index.unitPaths.find? unit with
  | none => { unit }
  | some path => (index.reading unit (index.sourceFindings workspace unit path)).uses

/-- The names that loading a unit leads to, loaded or not. A unit without a file leads nowhere. -/
def followed (workspace : Workspace) (index : Index) (unit : String) : List String :=
  match index.unitPaths.find? unit with
  | none => []
  | some path => (index.reading unit (index.sourceFindings workspace unit path)).following

/-- The uses of both parts, without the name of the unit. -/
def lists (uses : UnitUses) : List String × List String :=
  (uses.interface, uses.implementation)

/-- What is recorded is about the unit that is loaded. -/
theorem unit_usesOf (workspace : Workspace) (index : Index) (unit : String) :
    (index.usesOf workspace unit).unit = unit := by
  unfold usesOf
  split
  · rfl
  · exact unit_reading _

/-- What is recorded depends on the unit by its key, but for the unit's own name. -/
theorem lists_usesOf_congr {other : String} (h : UnitName.key unit = UnitName.key other) :
    lists (index.usesOf workspace unit) = lists (index.usesOf workspace other) := by
  unfold usesOf
  rw [index.unitPaths.find?_congr h]
  split
  · rfl
  · rename_i path _
    have hlists : (index.reading unit (index.sourceFindings workspace unit path)).lists =
        (index.reading other (index.sourceFindings workspace other path)).lists :=
      lists_reading_congr h
    simp only [Reading.lists, Prod.mk.injEq] at hlists
    exact Prod.ext hlists.1 hlists.2.1

/-- Loading a unit adds what is recorded of it, unless it is loaded. -/
theorem load_index (workspace : Workspace) (index : Index) (unit : String) :
    (index.load workspace unit).value.1 =
      if index.isLoaded unit then index
      else { index with uses := index.uses.insert unit (index.usesOf workspace unit) } := by
  unfold load usesOf
  split
  · rfl
  · cases index.unitPaths.find? unit <;> rfl

/-- A unit that is not loaded leads to the units that it mentions. -/
theorem mem_following_load {key : String} :
    key ∈ ((index.load workspace unit).value.2.elim [] Reading.following).map UnitName.key ↔
      index.isLoaded unit = false ∧ Mentions workspace index (UnitName.key unit) key := by
  unfold load
  cases hloaded : index.isLoaded unit with
  | true => simp
  | false =>
      cases hpath : index.unitPaths.find? unit with
      | none =>
          simp only [Bool.false_eq_true, if_false, Option.elim_none, List.map_nil,
            List.not_mem_nil, true_and, false_iff]
          rintro ⟨path, _, hregistered, _⟩
          rw [NameTable.find?_key, hpath] at hregistered
          cases hregistered
      | some path =>
          simp only [Bool.false_eq_true, if_false, Option.elim_some, true_and]
          exact mem_keys_reading hpath

/-- A unit is loaded after loading a unit if it is that unit or was loaded before. -/
theorem isLoaded_load (workspace : Workspace) (index : Index) (unit name : String) :
    (index.load workspace unit).value.1.isLoaded name =
      (UnitName.key unit == UnitName.key name || index.isLoaded name) := by
  rw [load_index]
  split
  · rename_i hloaded
    cases hsame : UnitName.key unit == UnitName.key name with
    | false => rfl
    | true => exact (index.uses.contains_congr (beq_iff_eq.1 hsame)).symm.trans hloaded
  · exact NameTable.contains_insert ..

/-- The one unit that is loaded after loading a unit and was not before is that unit. -/
theorem key_eq_of_isLoaded_load (hbefore : index.isLoaded name = false)
    (hafter : (index.load workspace unit).value.1.isLoaded name) :
    index.isLoaded unit = false ∧ UnitName.key unit = UnitName.key name := by
  rw [isLoaded_load, hbefore, Bool.or_false, beq_iff_eq] at hafter
  exact ⟨(index.uses.contains_congr hafter).trans hbefore, hafter⟩

/-- What is known of a unit after loading a unit: what is recorded of it if it is that unit and was
not loaded, and else what was known before. -/
theorem get?_load (workspace : Workspace) (index : Index) (unit name : String) :
    (index.load workspace unit).value.1.get? name =
      if index.isLoaded unit = false ∧ UnitName.key unit = UnitName.key name then
        some (index.usesOf workspace unit)
      else index.get? name := by
  rw [load_index]
  cases index.isLoaded unit with
  | true => simp
  | false =>
      simp only [Bool.false_eq_true, if_false, true_and]
      exact NameTable.find?_insert ..

/-- A visit leads to the units that the visited one mentions and that are not loaded. -/
theorem mem_keys_visit {key : String} :
    key ∈ (index.visit workspace unit).value.2.map UnitName.key ↔
      index.isLoaded unit = false ∧ Mentions workspace index (UnitName.key unit) key ∧
        (index.load workspace unit).value.1.isLoaded key = false := by
  rw [← and_assoc, ← mem_following_load]
  simp only [visit, Traced.value_bind, Traced.value_pure, List.mem_map, List.mem_filter]
  constructor
  · intro hvisited
    obtain ⟨name, ⟨hname, hunloaded⟩, rfl⟩ := hvisited
    refine ⟨⟨name, hname, rfl⟩, ?_⟩
    simpa [isLoaded] using hunloaded
  · intro hfollowing
    obtain ⟨⟨name, hname, rfl⟩, hunloaded⟩ := hfollowing
    refine ⟨name, ⟨hname, ?_⟩, rfl⟩
    simpa [isLoaded] using hunloaded

/-- These are the names that the unit leads to, without those that are loaded then. -/
theorem visit_names (workspace : Workspace) (index : Index) (unit : String) :
    (index.visit workspace unit).value.2 =
      if index.isLoaded unit then []
      else (index.followed workspace unit).filter fun name =>
        !(index.load workspace unit).value.1.isLoaded name := by
  simp only [visit, Traced.value_bind, Traced.value_pure, load, followed]
  split
  · rfl
  · cases index.unitPaths.find? unit <;> rfl

/-- A visit of a loaded unit does nothing and leads nowhere. -/
theorem visit_of_isLoaded (h : index.isLoaded unit) :
    index.visit workspace unit = { value := (index, []) } := by
  simp [visit, load, h]
  rfl

/-- So the loop passes over a loaded unit. -/
theorem loadAll_cons_of_isLoaded {rest : List String} (h : index.isLoaded unit) :
    loadAll workspace index (unit :: rest) = loadAll workspace index rest := by
  rw [loadAll, visit_of_isLoaded h]
  rfl

/-- The rule for the loop: what holds of an index and a stack, and still holds when the first unit
of the stack is visited, holds when the stack has run empty. -/
theorem loadAll_rule (holds : Index → List String → Prop)
    (hvisit : ∀ index unit rest, holds index (unit :: rest) →
      holds (index.load workspace unit).value.1
        ((index.visit workspace unit).value.2.reverse ++ rest))
    {stack : List String} (h : holds index stack) :
    holds (loadAll workspace index stack).value [] := by
  fun_induction loadAll workspace index stack with
  | case1 index => exact h
  | case2 index unit rest visited loaded ih => exact ih (hvisit index unit rest h)

/-- One turn of the loop: the first unit of the stack is visited and what it leads to comes in its
place, the last unit first. -/
def turn (workspace : Workspace) (state : Index × List String) : Index × List String :=
  match state.2 with
  | [] => state
  | unit :: rest =>
    let visited := (state.1.visit workspace unit).value
    (visited.1, visited.2.reverse ++ rest)

/-- The loop ends: after some number of turns the stack is empty and the index is the result. -/
theorem loadAll_turns (workspace : Workspace) (index : Index) (stack : List String) :
    ∃ turns, (turn workspace)^[turns] (index, stack) =
      ((loadAll workspace index stack).value, []) := by
  fun_induction loadAll workspace index stack with
  | case1 index => exact ⟨0, rfl⟩
  | case2 index unit rest visited loaded ih =>
      obtain ⟨turns, hturns⟩ := ih
      exact ⟨turns + 1, hturns⟩

/-- So it is enough to take turns until the stack is empty. -/
theorem value_loadAll_of_turns {stack : List String} (turns : Nat)
    (h : ((turn workspace)^[turns] (index, stack)).2 = []) :
    (loadAll workspace index stack).value = ((turn workspace)^[turns] (index, stack)).1 := by
  induction turns generalizing index stack with
  | zero =>
      have hempty : stack = [] := h
      rw [hempty, loadAll]
      rfl
  | succ turns ih =>
      rw [Function.iterate_succ_apply] at h ⊢
      cases stack with
      | nil => exact ih h
      | cons unit rest =>
          rw [loadAll]
          exact ih h

/-- A unit stays loaded while others are loaded. -/
theorem isLoaded_loadAll {stack : List String} (h : index.isLoaded name) :
    (loadAll workspace index stack).value.isLoaded name := by
  refine loadAll_rule (fun index _ => index.isLoaded name) ?_ h
  intro index unit rest hloaded
  rw [isLoaded_load, hloaded, Bool.or_true]

/-- The units of a stack are loaded when the loop ends. -/
theorem isLoaded_loadAll_stack (workspace : Workspace) (index : Index) (stack : List String) :
    ∀ unit ∈ stack, (loadAll workspace index stack).value.isLoaded unit := by
  suffices h : ∀ unit ∈ stack, (loadAll workspace index stack).value.isLoaded unit ∨ unit ∈ [] from
    fun unit hunit => (h unit hunit).resolve_right List.not_mem_nil
  refine loadAll_rule (fun after rest =>
    ∀ unit ∈ stack, after.isLoaded unit ∨ unit ∈ rest) ?_ fun unit hunit => .inr hunit
  intro after first rest h unit hunit
  rw [isLoaded_load]
  rcases h unit hunit with hloaded | hwaits
  · exact .inl (by rw [hloaded, Bool.or_true])
  · rcases List.mem_cons.1 hwaits with rfl | hrest
    · exact .inl (by simp)
    · exact .inr (List.mem_append_right _ hrest)

/-- Each loaded unit is listed under the key of its own name. -/
def Keyed (index : Index) : Prop :=
  ∀ key uses, (key, uses) ∈ index.uses.toList → UnitName.key uses.unit = key

/-- Nothing is listed under a wrong key where nothing is listed. -/
theorem Keyed.of_uses_empty (h : index.uses = .empty) : index.Keyed := by
  intro key uses hmem
  rw [h] at hmem
  simp [NameTable.toList, NameTable.empty] at hmem

/-- Loading lists a unit under the key of its own name. -/
theorem Keyed.load (h : index.Keyed) (unit : String) :
    (index.load workspace unit).value.1.Keyed := by
  rw [load_index]
  split
  · exact h
  · intro key uses hmem
    rcases NameTable.mem_toList_insert.1 hmem with ⟨rfl, rfl⟩ | ⟨_, hbefore⟩
    · rw [unit_usesOf]
    · exact h key uses hbefore

/-- So does loading the units of a stack. -/
theorem Keyed.loadAll (h : index.Keyed) (stack : List String) :
    (loadAll workspace index stack).value.Keyed :=
  loadAll_rule (fun index _ => index.Keyed) (fun _ unit _ h => h.load unit) h

/-- A key is listed if the unit with that key is loaded. -/
theorem Keyed.mem_keys_iff (h : index.Keyed) {key : String} :
    key ∈ index.uses.keys ↔ UnitName.key key = key ∧ index.isLoaded key := by
  constructor
  · intro hmem
    rw [NameTable.keys_eq_map_toList] at hmem
    obtain ⟨⟨_, uses⟩, hentry, rfl⟩ := List.mem_map.1 hmem
    have hkey : UnitName.key (UnitName.key uses.unit) = UnitName.key uses.unit :=
      UnitName.key_key _
    rw [h _ _ hentry] at hkey
    refine ⟨hkey, ?_⟩
    rw [isLoaded, NameTable.contains_eq_isSome_find?,
      (NameTable.mem_toList_iff_find? hkey).1 hentry, Option.isSome_some]
  · intro hlisted
    obtain ⟨hkey, hloaded⟩ := hlisted
    rw [← hkey]
    exact NameTable.key_mem_keys.2 hloaded

/-- Only what is known of the units changes while units are loaded. -/
theorem loadAll_index (workspace : Workspace) (index : Index) (stack : List String) :
    (loadAll workspace index stack).value =
      { index with uses := (loadAll workspace index stack).value.uses } := by
  refine loadAll_rule (fun after _ => after = { index with uses := after.uses }) ?_ rfl
  intro after unit rest hafter
  rw [load_index]
  split
  · exact hafter
  · rw [hafter]

/-- Building loads the units that the roots name, and notes their names. -/
theorem build_index (workspace : Workspace) (index : Index) (roots : List String) :
    (index.build workspace roots).value =
      (loadAll workspace { index with roots := index.roots ++ roots.map UnitName.ofPath }
        (roots.map UnitName.ofPath).reverse).value := rfl

/-- A build can be followed turn by turn, until its stack is empty. -/
theorem value_build_of_turns (workspace : Workspace) (index : Index) (roots : List String)
    (turns : Nat) :
    let names := roots.map UnitName.ofPath
    let state := (turn workspace)^[turns] ({ index with roots := index.roots ++ names },
      names.reverse)
    state.2 = [] → (index.build workspace roots).value = state.1 := by
  intro names state h
  rw [build_index]
  exact value_loadAll_of_turns turns h

/-- Building lists units under the keys of their own names. -/
theorem Keyed.build (h : index.Keyed) (roots : List String) :
    (index.build workspace roots).value.Keyed := by
  have hroots : Keyed { index with roots := index.roots ++ roots.map UnitName.ofPath } := h
  rw [build_index]
  exact hroots.loadAll _

end PascalUnits.Index
