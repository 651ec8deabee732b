import PascalUnits.Text.Ascii
import Std.Data.TreeSet

/-!
# Distinct texts

`distinct` leaves out of a list every text that was there before, in whatever letter case. The texts
that stay keep their order and their spelling. `mem_map_lower_distinct` says that no text is lost,
and `nodup_map_lower_distinct` that none is there twice.
-/

namespace PascalUnits.Text

/-- The distinct texts of a list that are not among `seen`, which holds texts in lower case. -/
def distinctFrom (seen : Std.TreeSet String) : List String → List String
  | [] => []
  | text :: rest =>
    if lower text ∈ seen then distinctFrom seen rest
    else text :: distinctFrom (seen.insert (lower text)) rest

/-- The distinct texts of a list, each in its first spelling, in the order of their first
mention. -/
def distinct (texts : List String) : List String :=
  distinctFrom ∅ texts

theorem mem_map_lower_distinctFrom {seen : Std.TreeSet String} {texts : List String}
    {text : String} : text ∈ (distinctFrom seen texts).map lower ↔
      text ∈ texts.map lower ∧ text ∉ seen := by
  induction texts generalizing seen with
  | nil => simp [distinctFrom]
  | cons first rest ih =>
    unfold distinctFrom
    split
    · rw [ih]
      grind
    · rw [List.map_cons, List.mem_cons, ih, Std.TreeSet.mem_insert]
      grind

theorem nodup_map_lower_distinctFrom (seen : Std.TreeSet String) (texts : List String) :
    ((distinctFrom seen texts).map lower).Nodup := by
  induction texts generalizing seen with
  | nil => simp [distinctFrom]
  | cons first rest ih =>
    unfold distinctFrom
    split
    · exact ih seen
    · rw [List.map_cons, List.nodup_cons, mem_map_lower_distinctFrom]
      exact ⟨fun listed => listed.2 Std.TreeSet.mem_insert_self, ih _⟩

/-- Every text is there in some spelling. -/
theorem mem_map_lower_distinct {texts : List String} {text : String} :
    text ∈ (distinct texts).map lower ↔ text ∈ texts.map lower := by
  simp [distinct, mem_map_lower_distinctFrom]

/-- No text is there in two spellings. -/
theorem nodup_map_lower_distinct (texts : List String) :
    ((distinct texts).map lower).Nodup :=
  nodup_map_lower_distinctFrom ∅ texts

end PascalUnits.Text
