import PascalUnits.Index.Load

/-!
# Building an index

`Index.build` loads the units that are asked for and whatever they lead to. Units wait on a stack:
the last one found is loaded next. Loading a unit that has a file takes it from the `pending` ones
for good, and a unit without a file leads nowhere, so the stack runs empty.
-/

namespace PascalUnits

namespace Index

/-- The keys of the registered units that are not loaded. -/
def pending (index : Index) : List String :=
  index.unitPaths.keys.filter fun key => !index.isLoaded key

/-- Loads a unit. Gives the units that it leads to and that are not loaded, in order. -/
def visit (workspace : Workspace) (index : Index) (unit : String) :
    Traced (Index × List String) := do
  let (after, reading) ← index.load workspace unit
  return (after, (reading.elim [] Reading.following).filter fun name => !after.isLoaded name)

/-- Loading a unit takes its key from the pending ones. -/
theorem pending_insert (index : Index) (unit : String) (uses : UnitUses) :
    pending { index with uses := index.uses.insert unit uses } =
      index.pending.filter fun key => UnitName.key unit != UnitName.key key := by
  simp only [pending, isLoaded, NameTable.contains_insert, List.filter_filter, Bool.not_or]
  rfl

theorem pending_load_length_le (workspace : Workspace) (index : Index) (unit : String) :
    (index.load workspace unit).value.1.pending.length ≤ index.pending.length := by
  unfold load
  split
  · exact Nat.le_refl _
  · split
    · rw [pending_insert]
      exact List.length_filter_le ..
    · rw [pending_insert]
      exact List.length_filter_le ..

theorem pending_load_length_lt {workspace : Workspace} {index : Index} {unit : String}
    {reading : Reading} (h : (index.load workspace unit).value.2 = some reading) :
    (index.load workspace unit).value.1.pending.length < index.pending.length := by
  unfold load at h ⊢
  split
  · simp_all
  · rename_i unloaded
    split
    · simp_all
    · rename_i path found
      rw [pending_insert, List.length_filter_lt_length_iff_exists]
      refine ⟨UnitName.key unit, List.mem_filter.2 ⟨?_, ?_⟩, by simp⟩
      · exact NameTable.key_mem_keys.2 (NameTable.contains_of_find? found)
      · simpa [isLoaded] using unloaded

/-- A visit takes a unit from the pending ones, or leads to nothing. -/
theorem pending_visit (workspace : Workspace) (index : Index) (unit : String) :
    (index.visit workspace unit).value.1.pending.length < index.pending.length ∨
      (index.visit workspace unit).value.1.pending.length ≤ index.pending.length ∧
        (index.visit workspace unit).value.2 = [] := by
  cases h : (index.load workspace unit).value.2 with
  | none => exact .inr ⟨pending_load_length_le .., by simp [visit, h]⟩
  | some reading => exact .inl (pending_load_length_lt h)

/-- Loads the units of a stack, the first one first, and whatever they lead to. -/
def loadAll (workspace : Workspace) (index : Index) (stack : List String) : Traced Index :=
  match stack with
  | [] => pure index
  | unit :: rest =>
    let visited := index.visit workspace unit
    let loaded := loadAll workspace visited.value.1 (visited.value.2.reverse ++ rest)
    { value := loaded.value, events := visited.events ++ loaded.events }
termination_by (index.pending.length, stack.length)
decreasing_by
  rcases pending_visit workspace index unit with less | ⟨least, nothing⟩
  · exact Prod.Lex.left _ _ less
  · rw [nothing]
    rcases Nat.lt_or_eq_of_le least with less | same
    · exact Prod.Lex.left _ _ less
    · rw [same]
      exact Prod.Lex.right _ (by simp)

/-- Loads the units that the roots name and whatever they lead to, the last root first. -/
def build (workspace : Workspace) (index : Index) (roots : List String) : Traced Index := do
  let names := roots.map UnitName.ofPath
  let index ← loadAll workspace { index with roots := index.roots ++ names } names.reverse
  Traced.tell (.indexBuilt index.roots.length index.uses.size)
  return index

end Index

end PascalUnits
