import Std.Data.TreeMap

/-!
# Adjacency

An `Adjacency` says for each key which keys it leads to. It is made of links, one after another, so
that what a key leads to is found without a search through all of them. `targets_ofLinks` says what
that is.
-/

namespace PascalUnits

/-- A step from one key to another. -/
structure Link where
  source : String
  target : String
  deriving DecidableEq, Repr

/-- The same step the other way. -/
def Link.reverse (link : Link) : Link :=
  { source := link.target, target := link.source }

/-- Which keys each key leads to. -/
structure Adjacency where
  table : Std.TreeMap String (List String) := ∅

namespace Adjacency

/-- The keys that `key` leads to, the one of the latest link first. -/
def targets (adjacency : Adjacency) (key : String) : List String :=
  adjacency.table.getD key []

/-- Adds a link. -/
def add (adjacency : Adjacency) (link : Link) : Adjacency :=
  { table := adjacency.table.insert link.source (link.target :: adjacency.targets link.source) }

/-- What links amount to, added in their order. -/
def ofLinks (links : List Link) : Adjacency :=
  links.foldl add {}

@[simp] theorem targets_empty (key : String) : targets {} key = [] := by
  simp [targets]

theorem targets_add (adjacency : Adjacency) (link : Link) (key : String) :
    (adjacency.add link).targets key =
      if link.source = key then link.target :: adjacency.targets key
      else adjacency.targets key := by
  by_cases h : link.source = key <;> simp [targets, add, Std.TreeMap.getD_insert, h]

theorem targets_foldl_add (links : List Link) (adjacency : Adjacency) (key : String) :
    (links.foldl add adjacency).targets key =
      ((links.filter (·.source == key)).map (·.target)).reverse ++ adjacency.targets key := by
  induction links generalizing adjacency with
  | nil => simp
  | cons link rest ih =>
    rw [List.foldl_cons, ih, targets_add]
    by_cases h : link.source = key <;> simp [h]

/-- A key leads to the targets of its links, the latest first. -/
theorem targets_ofLinks (links : List Link) (key : String) :
    (ofLinks links).targets key =
      ((links.filter (·.source == key)).map (·.target)).reverse := by
  simp [ofLinks, targets_foldl_add]

end Adjacency

end PascalUnits
