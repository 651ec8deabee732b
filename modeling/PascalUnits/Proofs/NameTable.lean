import Mathlib.Data.List.Sort
import PascalUnits.NameTable

/-!
# Look-ups in a table by name

`NameTable.find?_insert` says what a look-up gives after an insertion. Names with the same key are
looked up alike (`find?_key`), and a table contains exactly the names that a look-up finds. The list
of the entries is in strict order of the keys (`pairwise_toList`), so that tables with the same keys
list them alike (`keys_eq_of_mem_iff`).
-/

namespace PascalUnits

/-- Texts are compared by their order. -/
theorem compare_text_eq_lt {first second : String} : compare first second = .lt ↔ first < second :=
  compareOfLessAndEq_eq_lt

/-- Tables in which a look-up finds the same in some view list the same in that view. -/
theorem map_toList_eq_of_map_getElem?_eq {α β γ : Type} [Ord α] [Std.TransOrd α] [Std.LawfulEqOrd α]
    {table other : Std.TreeMap α β} {view : β → γ}
    (h : ∀ key : α, other[key]?.map view = table[key]?.map view) :
    other.toList.map (fun entry => (entry.1, view entry.2)) =
      table.toList.map fun entry => (entry.1, view entry.2) := by
  have hequiv : (other.map fun _ => view).Equiv (table.map fun _ => view) := by
    refine Std.TreeMap.Equiv.of_forall_constGet?_eq fun key => ?_
    rw [Std.TreeMap.getElem?_map, Std.TreeMap.getElem?_map, h]
  have hlist := hequiv.toList_eq
  rwa [Std.TreeMap.toList_map, Std.TreeMap.toList_map] at hlist

/-- If parts carry the keys of the items that they belong to, the parts of an item are found again
by its key. -/
theorem filter_flatMap_of_nodup {α β : Type} {items : List α} {parts : α → List β}
    {key : α → String} {keyOf : β → String}
    (hparts : ∀ item, ∀ part ∈ parts item, keyOf part = key item)
    (hnodup : (items.map key).Nodup) {item : α} (hitem : item ∈ items) :
    ((items.flatMap parts).filter fun part => keyOf part == key item) = parts item := by
  have hown : ((parts item).filter fun part => keyOf part == key item) = parts item :=
    List.filter_eq_self.2 fun part hpart => beq_iff_eq.2 (hparts item part hpart)
  have hother : ∀ other, key other ≠ key item →
      ((parts other).filter fun part => keyOf part == key item) = [] := by
    intro other hne
    rw [List.filter_eq_nil_iff]
    intro part hpart hsame
    exact hne ((hparts other part hpart).symm.trans (beq_iff_eq.1 hsame))
  induction items with
  | nil => cases hitem
  | cons first rest ih =>
      obtain ⟨hfirst, hrest⟩ := List.nodup_cons.1 hnodup
      rw [List.flatMap_cons, List.filter_append]
      rcases List.mem_cons.1 hitem with rfl | hlater
      · have hnone : ((rest.flatMap parts).filter fun part => keyOf part == key item) = [] := by
          rw [List.filter_flatMap, List.flatMap_eq_nil_iff]
          intro other hmem
          exact hother other fun hsame => hfirst (List.mem_map.2 ⟨other, hmem, hsame⟩)
        rw [hown, hnone, List.append_nil]
      · have hne : key first ≠ key item := fun hsame =>
          hfirst (List.mem_map.2 ⟨item, hlater, hsame.symm⟩)
        rw [hother first hne, List.nil_append, ih hrest hlater]

namespace NameTable

variable {α : Type}

@[simp] theorem find?_empty (name : String) : (empty : NameTable α).find? name = none := by
  simp [find?, empty]

@[simp] theorem find?_key (table : NameTable α) (name : String) :
    table.find? (UnitName.key name) = table.find? name := by
  rw [find?, find?, UnitName.key_key]

/-- After an insertion the inserted value is found under every spelling of its name. -/
theorem find?_insert (table : NameTable α) (name other : String) (value : α) :
    (table.insert name value).find? other =
      if UnitName.key name = UnitName.key other then some value else table.find? other := by
  simp [find?, insert, Std.TreeMap.getElem?_insert]

/-- Names with the same key are found alike. -/
theorem find?_congr (table : NameTable α) {name other : String}
    (h : UnitName.key name = UnitName.key other) : table.find? name = table.find? other := by
  rw [find?, find?, h]

theorem contains_eq_isSome_find? (table : NameTable α) (name : String) :
    table.contains name = (table.find? name).isSome := by
  rw [contains, Std.TreeMap.contains_eq_isSome_getElem?, find?]

@[simp] theorem contains_empty (name : String) : (empty : NameTable α).contains name = false := by
  simp [contains_eq_isSome_find?]

/-- Names with the same key are contained alike. -/
theorem contains_congr (table : NameTable α) {name other : String}
    (h : UnitName.key name = UnitName.key other) : table.contains name = table.contains other := by
  rw [contains, contains, h]

/-- The entries are in strict order of their keys. -/
theorem pairwise_toList (table : NameTable α) :
    table.toList.Pairwise fun first second => first.1 < second.1 :=
  Std.TreeMap.ordered_keys_toList.imp compare_text_eq_lt.1

/-- The keys are those of the entries. -/
theorem keys_eq_map_toList (table : NameTable α) : table.keys = table.toList.map (·.1) :=
  Std.TreeMap.map_fst_toList_eq_keys.symm

/-- The values are those of the entries. -/
theorem values_eq_map_toList (table : NameTable α) : table.values = table.toList.map (·.2) := by
  have hfold : table.values = table.toList.foldr (fun entry values => entry.2 :: values) [] :=
    Std.TreeMap.foldr_eq_foldr_toList (t := table.entries)
  rw [hfold, List.map_eq_foldr]

/-- The keys are in strict order. -/
theorem pairwise_keys (table : NameTable α) : table.keys.Pairwise (· < ·) :=
  Std.TreeMap.ordered_keys.imp compare_text_eq_lt.1

/-- No key is listed twice. -/
theorem nodup_keys (table : NameTable α) : table.keys.Nodup :=
  Std.TreeMap.nodup_keys

/-- Tables with the same keys list them alike. -/
theorem keys_eq_of_mem_iff {table other : NameTable α}
    (h : ∀ key, key ∈ table.keys ↔ key ∈ other.keys) : table.keys = other.keys :=
  table.pairwise_keys.eq_of_mem_iff other.pairwise_keys h

/-- An entry is listed if a look-up finds it, provided that its key is one. -/
theorem mem_toList_iff_find? {table : NameTable α} {key : String} (hkey : UnitName.key key = key)
    {value : α} : (key, value) ∈ table.toList ↔ table.find? key = some value := by
  rw [toList, Std.TreeMap.mem_toList_iff_getElem?_eq_some, find?, hkey]

/-- An insertion puts its own entry in place of any with the same key. -/
theorem mem_toList_insert {table : NameTable α} {name key : String} {value other : α} :
    (key, other) ∈ (table.insert name value).toList ↔
      (key = UnitName.key name ∧ other = value) ∨
        (key ≠ UnitName.key name ∧ (key, other) ∈ table.toList) := by
  simp only [toList, insert, Std.TreeMap.mem_toList_iff_getElem?_eq_some,
    Std.TreeMap.getElem?_insert, Std.compare_eq_iff_eq]
  split
  · rename_i hsame
    simp [hsame, eq_comm]
  · rename_i hother
    simp [Ne.symm hother]

end NameTable

end PascalUnits
