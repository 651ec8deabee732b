import PascalUnits.UnitName
import Std.Data.TreeMap

/-!
# Tables by name

A `NameTable` keeps one value for each unit name, where spellings that differ only in ASCII letter
case name the same unit. Its entries are in the order of the keys.
-/

namespace PascalUnits

/-- Values by the keys of names. -/
structure NameTable (α : Type) where
  entries : Std.TreeMap String α := ∅

namespace NameTable

variable {α : Type}

/-- The table without entries. -/
def empty : NameTable α := {}

/-- The value for `name`. -/
def find? (table : NameTable α) (name : String) : Option α :=
  table.entries[UnitName.key name]?

/-- Whether there is a value for `name`. -/
def contains (table : NameTable α) (name : String) : Bool :=
  table.entries.contains (UnitName.key name)

/-- Gives `name` a value, in place of any it had. -/
def insert (table : NameTable α) (name : String) (value : α) : NameTable α :=
  { entries := table.entries.insert (UnitName.key name) value }

/-- The keys in order. -/
def keys (table : NameTable α) : List String :=
  table.entries.keys

/-- The values in the order of their keys. -/
def values (table : NameTable α) : List α :=
  table.entries.values

/-- The keys with their values, in order. -/
def toList (table : NameTable α) : List (String × α) :=
  table.entries.toList

/-- The number of entries. -/
def size (table : NameTable α) : Nat :=
  table.entries.size

@[simp] theorem contains_key (table : NameTable α) (name : String) :
    table.contains (UnitName.key name) = table.contains name := by
  simp [contains]

theorem contains_insert (table : NameTable α) (name other : String) (value : α) :
    (table.insert name value).contains other =
      (UnitName.key name == UnitName.key other || table.contains other) := by
  rw [Bool.eq_iff_iff]
  simp [contains, insert, Std.TreeMap.contains_insert]

theorem contains_of_find? {table : NameTable α} {name : String} {value : α}
    (h : table.find? name = some value) : table.contains name = true := by
  rw [contains, Std.TreeMap.contains_eq_isSome_getElem?, ← find?, h, Option.isSome_some]

theorem key_mem_keys {table : NameTable α} {name : String} :
    UnitName.key name ∈ table.keys ↔ table.contains name = true := by
  simp [keys, contains, Std.TreeMap.mem_keys]

end NameTable

end PascalUnits
